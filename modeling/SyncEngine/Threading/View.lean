import Mathlib
import SyncEngine.Threading.Derive

/-!
# What the stores agree on

A store's threading state seen without its tables: the thread each row is on, the ids it
touches and the ids it owns.  Both stores take a page in by the same steps on this view,
so each step is said here once and each store is shown to take it.

Assigning a thread to a batch moves the batch and every graphed row under a thread it
reaches onto one name.
-/

namespace SyncEngine
namespace Threading

/-- A message is stored under its scope and its key. -/
abbrev Row := SyncScope × Text

structure View where
  thread : Row → Option Text
  touches : Row → Text → Prop
  owns : Row → Text → Prop

def rowsOf (scope : SyncScope) (rows : List MailRow) : Set Row :=
  {r | ∃ row ∈ rows, r = (scope, row.key)}

namespace View

theorem ext_of {v w : View} (thread : ∀ r, v.thread r = w.thread r) (touches : ∀ r id, v.touches r id ↔ w.touches r id)
    (owns : ∀ r id, v.owns r id ↔ w.owns r id) : v = w := by
  cases v with
  | mk _ _ _ =>
    cases w with
    | mk _ _ _ =>
      congr
      · exact funext thread
      · exact funext fun r => funext fun id => propext (touches r id)
      · exact funext fun r => funext fun id => propext (owns r id)

def empty : View := ⟨fun _ => none, fun _ _ => False, fun _ _ => False⟩

def graphed (v : View) : Set Row := {r | ∃ id, v.touches r id}

def under (v : View) (threads : Set Text) : Set Row := {r | ∃ t ∈ threads, v.thread r = some t}

def reached (v : View) (batch : Set Row) : Set Text :=
  {t | ∃ m, v.thread m = some t ∧ ∃ b ∈ batch, Shares v.touches m b}

def moved (v : View) (batch : Set Row) : Set Row :=
  batch ∪ v.graphed ∩ v.under (v.reached batch)

open Classical in
/-- The view after the rows were put on `t`. -/
noncomputable def put (v : View) (rows : Set Row) (t : Text) : View where
  thread r := if r ∈ rows then some t else v.thread r
  touches := v.touches
  owns := v.owns

/-- The view after the batch and what it reaches were put on `t`. -/
noncomputable def assigned (v : View) (batch : Set Row) (t : Text) : View :=
  v.put (v.moved batch) t

section Put

variable {v : View} {rows batch : Set Row} {t : Text} {r : Row}

theorem put_of_mem (h : r ∈ rows) : (v.put rows t).thread r = some t := if_pos h

theorem put_of_not_mem (h : r ∉ rows) : (v.put rows t).thread r = v.thread r := if_neg h

theorem assigned_of_mem (h : r ∈ v.moved batch) : (v.assigned batch t).thread r = some t := put_of_mem h

theorem assigned_of_not_mem (h : r ∉ v.moved batch) : (v.assigned batch t).thread r = v.thread r := put_of_not_mem h

end Put

/-! ## Taking a page in -/

def removed (scope : SyncScope) (v : View) (key : Text) : View where
  thread r := if r = (scope, key) then none else v.thread r
  touches r id := r ≠ (scope, key) ∧ v.touches r id
  owns r id := r ≠ (scope, key) ∧ v.owns r id

/-- A row that names no thread keeps the one it is stored with. -/
def upserted (scope : SyncScope) (v : View) (row : MailRow) : View where
  thread r := if r = (scope, row.key) then row.threadId.or (v.thread r) else v.thread r
  touches := v.touches
  owns := v.owns

/-- The graph rows of every message named are replaced. -/
def referenced (v : View) (scope : SyncScope) (refs : List MailRefRow) : View where
  thread := v.thread
  touches r id :=
    if r.1 = scope ∧ r.2 ∈ refs.map MailRefRow.key then
      ∃ ref ∈ refs, ref.key = r.2 ∧ ref.msgid = id
    else v.touches r id
  owns r id :=
    if r.1 = scope ∧ r.2 ∈ refs.map MailRefRow.key then
      ∃ ref ∈ refs, ref.key = r.2 ∧ ref.msgid = id ∧ ref.owned = true
    else v.owns r id

/-- A message without ids is on a thread of its own, unless it is on one already. -/
def bared (scope : SyncScope) (v : View) (key : Text) : View where
  thread r := if r = (scope, key) ∧ v.thread r = none then some key else v.thread r
  touches := v.touches
  owns := v.owns

end View

def Page.graphed (page : Page) : List MailRow :=
  page.rows.filter fun row => row.threadId.isNone && (page.refs.map MailRefRow.key).contains row.key

def Page.bare (page : Page) : List MailRow :=
  page.rows.filter fun row => row.threadId.isNone && !(page.refs.map MailRefRow.key).contains row.key

def View.written (v : View) (page : Page) : View :=
  let cleared := page.removed.foldl (View.removed page.scope) v
  let upserted := page.rows.foldl (View.upserted page.scope) cleared
  upserted.referenced page.scope page.refs

/-- The view once the messages without ids are on their threads too, before the graphed
ones are assigned. -/
def View.received (v : View) (page : Page) : View :=
  (page.bare.map MailRow.key).foldl (View.bared page.scope) (v.written page)

/-- One batch after the other is assigned, each on the name of itself and of all that stands
under the threads it reaches by then. -/
inductive Assigns : View → List (Set Row) → View → Prop
  | nil (v : View) : Assigns v [] v
  | cons {v v' : View} {batch : Set Row} {rest : List (Set Row)} {t : Text} :
      IsName v.owns Prod.snd (batch ∪ v.under (v.reached batch)) t →
      Assigns (v.assigned batch t) rest v' → Assigns v (batch :: rest) v'

/-- The batches are decided against the view `u`, each on the name of itself and of the
graphed rows under the threads it reaches there, and put on their threads one after the
other. -/
inductive AssignsFrom (u : View) : View → List (Set Row) → View → Prop
  | nil (v : View) : AssignsFrom u v [] v
  | cons {v v' : View} {batch : Set Row} {rest : List (Set Row)} {t : Text} :
      IsName u.owns Prod.snd (u.moved batch) t →
      AssignsFrom u (v.put (u.moved batch) t) rest v' → AssignsFrom u v (batch :: rest) v'

/-! ## The ids of the page's rows -/

namespace View

variable {v : View} {page : Page}

variable (scope : SyncScope)

theorem touches_foldl_upserted (rows : List MailRow) (v : View) :
    (rows.foldl (upserted scope) v).touches = v.touches ∧ (rows.foldl (upserted scope) v).owns = v.owns := by
  induction rows generalizing v with
  | nil => exact ⟨rfl, rfl⟩
  | cons row rest ih => exact ih (v.upserted scope row)

theorem touches_foldl_bared (keys : List Text) (v : View) : (keys.foldl (bared scope) v).touches = v.touches ∧
      (keys.foldl (bared scope) v).owns = v.owns := by
  induction keys generalizing v with
  | nil => exact ⟨rfl, rfl⟩
  | cons key rest ih => exact ih (v.bared scope key)

variable {rows : List MailRow} {r : Row}

theorem thread_foldl_upserted_none {scope : SyncScope}
    (h : ∀ row ∈ rows, (scope, row.key) = r → row.threadId = none) (v : View) :
    (rows.foldl (upserted scope) v).thread r = v.thread r := by
  induction rows generalizing v with
  | nil => rfl
  | cons row rest ih =>
    rw [List.foldl_cons, ih fun row hrow => h row (List.mem_cons_of_mem _ hrow)]
    show (if r = (scope, row.key) then row.threadId.or (v.thread r) else v.thread r) = _
    by_cases hr : r = (scope, row.key)
    · rw [if_pos hr, h row List.mem_cons_self hr.symm, Option.none_or]
    · rw [if_neg hr]

theorem thread_foldl_upserted_some {scope : SyncScope} {t : Text}
    (h : ∀ row ∈ rows, (scope, row.key) = r → row.threadId = some t) (v : View)
    (hin : (∃ row ∈ rows, (scope, row.key) = r) ∨ v.thread r = some t) :
    (rows.foldl (upserted scope) v).thread r = some t := by
  induction rows generalizing v with
  | nil =>
    rcases hin with ⟨row, hrow, -⟩ | hin
    · exact absurd hrow List.not_mem_nil
    · exact hin
  | cons row rest ih =>
    rw [List.foldl_cons]
    refine ih (fun row hrow => h row (List.mem_cons_of_mem _ hrow)) _ ?_
    by_cases hr : r = (scope, row.key)
    · right
      show (if r = (scope, row.key) then row.threadId.or (v.thread r) else v.thread r) = _
      rw [if_pos hr, h row List.mem_cons_self hr.symm, Option.some_or]
    · rcases hin with ⟨row', hrow', hr'⟩ | hin
      · rcases List.mem_cons.mp hrow' with rfl | hrow'
        · exact absurd hr'.symm hr
        · exact Or.inl ⟨row', hrow', hr'⟩
      · right
        show (if r = (scope, row.key) then row.threadId.or (v.thread r) else v.thread r) = _
        rw [if_neg hr, hin]

theorem thread_foldl_bared (keys : List Text) (v : View) (r : Row) : (keys.foldl (bared scope) v).thread r =
      if (r.1 = scope ∧ r.2 ∈ keys) ∧ v.thread r = none then some r.2 else v.thread r := by
  induction keys generalizing v with
  | nil => simp
  | cons key rest ih =>
    rw [List.foldl_cons, ih]
    have hone : (v.bared scope key).thread r =
        if r = (scope, key) ∧ v.thread r = none then some key else v.thread r := rfl
    have hkey : r = (scope, key) ↔ r.1 = scope ∧ r.2 = key := Prod.ext_iff
    by_cases hnone : v.thread r = none
    · by_cases hr : r = (scope, key)
      · obtain ⟨h₁, h₂⟩ := hkey.mp hr
        have hsome : (v.bared scope key).thread r = some key := by rw [hone, if_pos ⟨hr, hnone⟩]
        have hin : (r.1 = scope ∧ r.2 ∈ key :: rest) ∧ v.thread r = none := ⟨⟨h₁, List.mem_cons.mpr (Or.inl h₂)⟩, hnone⟩
        rw [hsome, if_neg (by simp), if_pos hin, h₂]
      · have hsame : (v.bared scope key).thread r = v.thread r := by
          rw [hone, if_neg fun hc => hr hc.1]
        have hiff : r.1 = scope ∧ r.2 ∈ key :: rest ↔ r.1 = scope ∧ r.2 ∈ rest := by
          rw [List.mem_cons]
          constructor
          · rintro ⟨h₁, h₂ | h₂⟩
            · exact absurd (hkey.mpr ⟨h₁, h₂⟩) hr
            · exact ⟨h₁, h₂⟩
          · rintro ⟨h₁, h₂⟩
            exact ⟨h₁, Or.inr h₂⟩
        simp only [hsame, hiff]
    · have hsame : (v.bared scope key).thread r = v.thread r := by
        rw [hone, if_neg fun hc => hnone hc.2]
      simp [hsame, hnone]

theorem touches_received_eq (v : View) (page : Page) : (v.received page).touches = (v.written page).touches ∧
      (v.received page).owns = (v.written page).owns := touches_foldl_bared _ _ _

theorem moved_received (hbare : ∀ key ∈ page.bare.map MailRow.key, (v.written page).thread (page.scope, key) = none →
        (page.scope, key) ∉ (v.written page).graphed) (batch : Set Row) :
    (v.received page).moved batch = (v.written page).moved batch := by
  have hthread : ∀ r ∈ (v.written page).graphed, (v.received page).thread r = (v.written page).thread r := by
    intro r hr
    rw [received, thread_foldl_bared, if_neg]
    rintro ⟨⟨hscope, hkey⟩, hnone⟩
    have heq : r = (page.scope, r.2) := Prod.ext hscope rfl
    rw [heq] at hnone hr
    exact hbare r.2 hkey hnone hr
  have hgraphed : (v.received page).graphed = (v.written page).graphed := by
    rw [graphed, graphed, (touches_received_eq v page).1]
  have hreached : (v.received page).reached batch = (v.written page).reached batch := by
    ext t
    simp only [reached, (touches_received_eq v page).1]
    constructor
    · rintro ⟨m, ht, b, hb, id, hm, hbid⟩
      exact ⟨m, (hthread m ⟨id, hm⟩).symm.trans ht, b, hb, id, hm, hbid⟩
    · rintro ⟨m, ht, b, hb, id, hm, hbid⟩
      exact ⟨m, (hthread m ⟨id, hm⟩).trans ht, b, hb, id, hm, hbid⟩
  rw [moved, moved, hgraphed, hreached]
  congr 1
  ext r
  constructor
  · rintro ⟨hg, t, ht, hr⟩
    exact ⟨hg, t, ht, (hthread r hg).symm.trans hr⟩
  · rintro ⟨hg, t, ht, hr⟩
    exact ⟨hg, t, ht, (hthread r hg).trans hr⟩

theorem touches_received {key : Text} (h : key ∈ page.refs.map MailRefRow.key) (id : Text) :
    ((v.received page).touches (page.scope, key) id ↔ ∃ ref ∈ page.refs, ref.key = key ∧ ref.msgid = id) ∧
    ((v.received page).owns (page.scope, key) id ↔
      ∃ ref ∈ page.refs, ref.key = key ∧ ref.msgid = id ∧ ref.owned = true) := by
  rw [(touches_received_eq v page).1, (touches_received_eq v page).2]
  constructor
  · show (if _ then _ else _) ↔ _
    rw [if_pos ⟨rfl, h⟩]
  · show (if _ then _ else _) ↔ _
    rw [if_pos ⟨rfl, h⟩]

theorem touches_received_elsewhere (hremoved : page.removed = [])
    (h : ¬ (r.1 = page.scope ∧ r.2 ∈ page.refs.map MailRefRow.key)) (id : Text) :
    ((v.received page).touches r id ↔ v.touches r id) ∧ ((v.received page).owns r id ↔ v.owns r id) := by
  rw [(touches_received_eq v page).1, (touches_received_eq v page).2, written, hremoved]
  constructor
  · show (if _ then _ else _) ↔ _
    rw [if_neg h, (touches_foldl_upserted _ _ _).1]
    rfl
  · show (if _ then _ else _) ↔ _
    rw [if_neg h, (touches_foldl_upserted _ _ _).2]
    rfl

/-- The page's graph rows of these keys are the stored ones. -/
def Reflects (v : View) (scope : SyncScope) (byKey : ByKey) (keys : List Text) : Prop :=
  ∀ key ∈ keys, ∀ id, (id ∈ byKey.idsOf key ↔ v.touches (scope, key) id) ∧
    ((∃ ref ∈ byKey.refsOf key, ref.owned = true ∧ ref.msgid = id) ↔ v.owns (scope, key) id)

section Reflects

variable {scope : SyncScope} {byKey : ByKey} {component : List MailRow} {id : Text}

theorem mem_touched (hr : v.Reflects scope byKey (component.map MailRow.key)) :
    id ∈ byKey.touched component ↔ ∃ r ∈ rowsOf scope component, v.touches r id := by
  rw [ByKey.touched, List.mem_flatMap]
  constructor
  · rintro ⟨row, hrow, hid⟩
    have hkey := List.mem_map_of_mem (f := MailRow.key) hrow
    exact ⟨_, ⟨row, hrow, rfl⟩, ((hr row.key hkey id).1).mp hid⟩
  · rintro ⟨_, ⟨row, hrow, rfl⟩, hid⟩
    have hkey := List.mem_map_of_mem (f := MailRow.key) hrow
    exact ⟨row, hrow, ((hr row.key hkey id).1).mpr hid⟩

theorem mem_owned (hr : v.Reflects scope byKey (component.map MailRow.key)) :
    id ∈ byKey.owned component ↔ ∃ r ∈ rowsOf scope component, v.owns r id := by
  simp only [ByKey.owned, List.mem_map, List.mem_filter, List.mem_flatMap]
  constructor
  · rintro ⟨ref, ⟨⟨row, hrow, href⟩, hown⟩, hid⟩
    have hkey := List.mem_map_of_mem (f := MailRow.key) hrow
    exact ⟨_, ⟨row, hrow, rfl⟩, ((hr row.key hkey id).2).mp ⟨ref, href, hown, hid⟩⟩
  · rintro ⟨_, ⟨row, hrow, rfl⟩, hown⟩
    have hkey := List.mem_map_of_mem (f := MailRow.key) hrow
    obtain ⟨ref, href, hown, hid⟩ := ((hr row.key hkey id).2).mpr hown
    exact ⟨ref, ⟨⟨row, hrow, href⟩, hown⟩, hid⟩

theorem reflects_received {keys : List Text} (hkeys : ∀ key ∈ keys, key ∈ page.refs.map MailRefRow.key) :
    (v.received page).Reflects page.scope (Keyed.group page.refs MailRefRow.key) keys := by
  intro key hkey id
  obtain ⟨htouch, hown⟩ := touches_received (v := v) (hkeys key hkey) id
  rw [ByKey.idsOf, refsOf_group, htouch, hown]
  constructor
  · simp only [List.mem_map, List.mem_filter, decide_eq_true_eq, and_assoc]
  · simp only [List.mem_filter, decide_eq_true_eq, and_assoc]
    refine exists_congr fun ref => ?_
    tauto

end Reflects

end View

theorem mem_rowsOf {scope : SyncScope} {component : List MailRow} {r : Row} : r ∈ rowsOf scope component ↔
    r.1 = scope ∧ r.2 ∈ component.map MailRow.key := by
  constructor
  · rintro ⟨row, hrow, rfl⟩
    exact ⟨rfl, List.mem_map_of_mem hrow⟩
  · rintro ⟨h₁, h₂⟩
    obtain ⟨row, hrow, hkey⟩ := List.mem_map.mp h₂
    exact ⟨row, hrow, Prod.ext h₁ hkey.symm⟩

variable {key : Text}

theorem isSome_group_iff {refs : List MailRefRow} :
    ((Keyed.group refs MailRefRow.key).get? key).isSome = (refs.map MailRefRow.key).contains key := by
  rw [Bool.eq_iff_iff, List.contains_iff_mem, Option.isSome_iff_exists, List.mem_map]
  constructor
  · rintro ⟨g, hg⟩
    exact ((Keyed.get?_group _ _ _).mp hg).2
  · intro h
    exact ⟨_, (Keyed.get?_group _ _ _).mpr ⟨rfl, h⟩⟩

variable (page : Page)

theorem Page.graphed_eq : page.graphed = (page.rows.filter fun row => row.threadId.isNone).filter
      fun row => ((Keyed.group page.refs MailRefRow.key).get? row.key).isSome := by
  rw [List.filter_filter, Page.graphed]
  congr 1
  funext row
  rw [isSome_group_iff, Bool.and_comm]

theorem Page.bare_eq : page.bare = (page.rows.filter fun row => row.threadId.isNone).filter
      fun row => !((Keyed.group page.refs MailRefRow.key).get? row.key).isSome := by
  rw [List.filter_filter, Page.bare]
  congr 1
  funext row
  rw [isSome_group_iff, Bool.and_comm]

/-- The groups of a page whose rows the provider did not thread. -/
def Page.components (page : Page) : List (List MailRow) :=
  Threading.components page.graphed (Keyed.group page.refs MailRefRow.key)

theorem Page.graphed_keys {page : Page} {c : List MailRow} (hc : c ∈ page.components) (hkey : key ∈ c.map MailRow.key) :
    key ∈ page.refs.map MailRefRow.key ∧ key ∈ page.rows.map MailRow.key := by
  obtain ⟨row, hrow, rfl⟩ := List.mem_map.mp hkey
  have hin := List.mem_filter.mp (components_subset hc hrow)
  refine ⟨?_, List.mem_map_of_mem hin.1⟩
  have hb := (Bool.and_eq_true _ _ ▸ hin.2).2
  simpa using hb

/-!
## Maintaining the thread index in the durable store

The `message` and `msgid_ref` tables, the queries over them, and the assignment inside the transaction of an apply.  A
page's rows and graph rows are written first.  Then each component of the page reads the threads its ids touch, takes
the least owned id of everything under them as the name, and moves all of it onto that name.
-/

structure MessageRow where
  account : AccountId
  threadId : Option Text
deriving DecidableEq

structure RefRow where
  account : AccountId
  owned : Bool
deriving DecidableEq

structure Sqlite where
  message : Keyed Row MessageRow
  msgidRef : Keyed (Row × Text) RefRow

def smaller : Option Text → Option Text → Option Text
  | some a, some b => some (min a b)
  | only, none => only
  | none, only => only

namespace Sqlite

def new : Sqlite := ⟨Keyed.empty, Keyed.empty⟩

def deleteDerivedRows (scope : SyncScope) (st : Sqlite) (key : Text) : Sqlite where
  message := st.message.filterRows fun r _ => r ≠ (scope, key)
  msgidRef := st.msgidRef.filterRows fun r _ => r.1 ≠ (scope, key)

def upsertMessage (scope : SyncScope) (account : AccountId) (st : Sqlite) (row : MailRow) :
    Sqlite :=
  let stored := (st.message.get? (scope, row.key)).bind MessageRow.threadId
  { st with message := st.message.put (scope, row.key) ⟨account, row.threadId.or stored⟩ }

def deleteRefs (scope : SyncScope) (st : Sqlite) (key : Text) : Sqlite :=
  { st with msgidRef := st.msgidRef.filterRows fun r _ => r.1 ≠ (scope, key) }

def insertRef (scope : SyncScope) (account : AccountId) (st : Sqlite) (row : MailRefRow) :
    Sqlite :=
  let written : RefRow :=
    match st.msgidRef.get? ((scope, row.key), row.msgid) with
    | some stored => { stored with owned := stored.owned || row.owned }
    | none => ⟨account, row.owned⟩
  { st with msgidRef := st.msgidRef.put ((scope, row.key), row.msgid) written }

def replaceRefs (scope : SyncScope) (account : AccountId) (st : Sqlite) (rows : List MailRefRow) :
    Sqlite :=
  let cleared := (rows.map MailRefRow.key).dedup.foldl (deleteRefs scope) st
  rows.foldl (insertRef scope account) cleared

/-- The distinct threads already stored for any message touching one of `ids`. -/
def threadsTouching (st : Sqlite) (account : AccountId) (ids : List Text) : List Text :=
  (st.msgidRef.rows.filterMap fun r =>
    if r.2.account = account ∧ r.1.2 ∈ ids then
      (st.message.get? r.1.1).bind MessageRow.threadId
    else none).dedup

def inThreads (account : AccountId) (threads : List Text) (m : MessageRow) : Bool :=
  m.account = account && m.threadId.any fun t => t ∈ threads

/-- The smallest owned id among the members of `threads`. -/
def ownedInThreads (st : Sqlite) (account : AccountId) (threads : List Text) : Option Text :=
  (st.msgidRef.rows.filterMap fun r =>
    if r.2.owned && (st.message.get? r.1.1).any (inThreads account threads) then some r.1.2
    else none).min?

/-- The smallest provider key among the members of `threads`. -/
def keyInThreads (st : Sqlite) (account : AccountId) (threads : List Text) : Option Text :=
  (st.message.rows.filterMap fun r =>
    if inThreads account threads r.2 then some r.1.2 else none).min?

/-- Move every graphed member of `threads` onto `thread`. -/
def rekey (st : Sqlite) (account : AccountId) (threads : List Text) (thread : Text) : Sqlite :=
  { st with
    message := st.message.mapRows fun r m =>
      if inThreads account threads m && st.msgidRef.keys.any fun k => k.1 = r then
        { m with threadId := some thread }
      else m }

def setThread (scope : SyncScope) (thread : Text) (st : Sqlite) (key : Text) : Sqlite :=
  { st with
    message := st.message.modify (scope, key) fun m => { m with threadId := some thread } }

/-- Name a message without ids after its own key, unless it is on a thread. -/
def setBare (scope : SyncScope) (st : Sqlite) (key : Text) : Sqlite :=
  { st with
    message := st.message.modify (scope, key) fun m =>
      if m.threadId = none then { m with threadId := some key } else m }

def assignComponent (scope : SyncScope) (account : AccountId) (byKey : ByKey) (st : Sqlite)
    (component : List MailRow) : Sqlite :=
  let reached := st.threadsTouching account (byKey.touched component).dedup
  let owned := (byKey.owned component).min?
  let smallestKey := (component.map MailRow.key).min?
  let owned :=
    if reached.isEmpty then owned else smaller owned (st.ownedInThreads account reached)
  let smallestKey :=
    if reached.isEmpty then smallestKey else smaller smallestKey (st.keyInThreads account reached)
  match owned.or smallestKey with
  | none => st
  | some thread =>
    let st := if reached.isEmpty then st else st.rekey account reached thread
    (component.map MailRow.key).foldl (setThread scope thread) st

def assignThreads (order : HashOrder (List MailRow)) (scope : SyncScope) (account : AccountId)
    (st : Sqlite) (messages : List MailRow) (refs : List MailRefRow) : Sqlite :=
  let byKey : ByKey := Keyed.group refs MailRefRow.key
  let derivable := messages.filter fun row => row.threadId.isNone
  let graphed := derivable.filter fun row => (byKey.get? row.key).isSome
  let bare := derivable.filter fun row => !(byKey.get? row.key).isSome
  let st := (bare.map MailRow.key).foldl (setBare scope) st
  (order.arrange (components graphed byKey)).foldl (assignComponent scope account byKey) st

/-- What an apply does to the two tables.  The account is the one recorded for the scope. -/
def applyPage (order : HashOrder (List MailRow)) (st : Sqlite) (page : Page) : Sqlite :=
  let account := page.scope.account
  let st := page.removed.foldl (deleteDerivedRows page.scope) st
  if page.rows.isEmpty && page.refs.isEmpty then st
  else
    let st := page.rows.foldl (upsertMessage page.scope account) st
    let st := replaceRefs page.scope account st page.refs
    if page.rows.isEmpty then st
    else assignThreads order page.scope account st page.rows page.refs

end Sqlite

end Threading
end SyncEngine
