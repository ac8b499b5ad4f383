import SyncEngine.Threading.View

/-!
# What the reference store's threading steps do to its view

The counterpart of the durable store's lemmas: a page is taken in by the same steps of the
view, and its components are then decided against the view as it was read.
-/

namespace SyncEngine
namespace Threading

/-!
## Maintaining the thread index in the reference store

The reference store mirrors the durable one without its indices.  It reads the account's
graphed messages once, decides for every component of the page against that reading, and
writes all the decisions at the end.
-/

/-- The message rows and the graph rows of every scope, each under scope and key. -/
structure Mem where
  messages : Keyed Row MailRow
  refs : Keyed Row (List MailRefRow)

/-- One message as the graph sees it. -/
structure Member where
  row : Row
  thread : Option Text
  ids : List MailRefRow
deriving DecidableEq

/-- The stored members sitting under any of `threads`. -/
def membersOf (stored : List Member) (threads : List Text) : List Member :=
  haveI := text_lawful
  stored.filter fun member => member.thread.any fun thread => thread ∈ threads

namespace Mem

def new : Mem := ⟨Keyed.empty, Keyed.empty⟩

def removeDerived (scope : SyncScope) (st : Mem) (key : Text) : Mem where
  messages := st.messages.filterRows fun r _ => r ≠ (scope, key)
  refs := st.refs.filterRows fun r _ => r ≠ (scope, key)

def upsertMessage (scope : SyncScope) (st : Mem) (row : MailRow) : Mem :=
  let stored := (st.messages.get? (scope, row.key)).bind MailRow.threadId
  { st with
    messages := st.messages.put (scope, row.key) { row with threadId := row.threadId.or stored } }

def insertRefs (scope : SyncScope) (st : Mem) (group : Text × List MailRefRow) : Mem :=
  { st with refs := st.refs.put (scope, group.1) group.2 }

/-- Every graphed message the account holds.  A message with no graph rows is not in the
graph, so nothing here can reach it. -/
def accountMembers (st : Mem) (account : AccountId) : List Member :=
  st.messages.rows.filterMap fun r =>
    if r.1.1.account = account then
      match st.refs.get? r.1 with
      | some ids => if ids.isEmpty then none else some ⟨r.1, r.2.threadId, ids⟩
      | none => none
    else none

/-- What one component of the page decides: the thread of every member under the threads it
reaches, and of its own rows. -/
def componentAssignments (stored : List Member) (scope : SyncScope) (byKey : ByKey)
    (component : List MailRow) : List (Row × Text) :=
  haveI := text_lawful
  haveI := string_min
  let ids := byKey.touched component
  let reached := (stored.filter fun member =>
    member.ids.any fun row => row.msgid ∈ ids).filterMap Member.thread
  let members := membersOf stored reached
  let owned := (byKey.owned component ++
    ((members.flatMap Member.ids).filter MailRefRow.owned).map MailRefRow.msgid).min?
  let smallestKey := (component.map MailRow.key ++ members.map fun member => member.row.2).min?
  match owned.or smallestKey with
  | none => []
  | some thread => (members.map fun member => (member.row, thread)) ++
      component.map fun row => ((scope, row.key), thread)

def setThread (st : Mem) (assignment : Row × Text) : Mem :=
  { st with
    messages := st.messages.modify assignment.1 fun row =>
      { row with threadId := some assignment.2 } }

def assignThreads (order : HashOrder (List MailRow)) (scope : SyncScope) (account : AccountId)
    (st : Mem) (messages : List MailRow) (refs : List MailRefRow) : Mem :=
  let byKey : ByKey := Keyed.group refs MailRefRow.key
  let stored := st.accountMembers account
  let derivable := messages.filter fun row => row.threadId.isNone
  let graphed := derivable.filter fun row => (byKey.get? row.key).isSome
  let bare := derivable.filter fun row => !(byKey.get? row.key).isSome
  let singletons := (bare.filter fun row =>
    (st.messages.get? (scope, row.key)).any fun stored => stored.threadId.isNone).map
      fun row => ((scope, row.key), row.key)
  let decided := (order.arrange (components graphed byKey)).flatMap
    (componentAssignments stored scope byKey)
  (singletons ++ decided).foldl setThread st

def applyPage (order : HashOrder (List MailRow)) (st : Mem) (page : Page) : Mem :=
  let st := page.removed.foldl (removeDerived page.scope) st
  let st := page.rows.foldl (upsertMessage page.scope) st
  let st := (Keyed.group page.refs MailRefRow.key).rows.foldl (insertRefs page.scope) st
  if page.rows.isEmpty then st
  else assignThreads order page.scope page.scope.account st page.rows page.refs

def view (st : Mem) : View where
  thread r := (st.messages.get? r).bind MailRow.threadId
  touches r id := ∃ ids, st.refs.get? r = some ids ∧ ∃ ref ∈ ids, ref.msgid = id
  owns r id := ∃ ids, st.refs.get? r = some ids ∧ ∃ ref ∈ ids, ref.msgid = id ∧ ref.owned = true

def OneAccount (st : Mem) (account : AccountId) : Prop :=
  ∀ r m, st.messages.get? r = some m → r.1.account = account

variable {st : Mem} {scope : SyncScope} {account : AccountId}

theorem view_new : new.view = View.empty := View.ext_of (fun _ => rfl) (fun _ _ => by simp [view, View.empty, new])
    fun _ _ => by simp [view, View.empty, new]

/-! ## Taking a page in -/

theorem view_removeDerived (key : Text) : (st.removeDerived scope key).view = st.view.removed scope key := by
  apply View.ext_of
  · intro r
    simp only [view, removeDerived, View.removed, Keyed.get?_filterRows]
    by_cases hr : r = (scope, key)
    · cases st.messages.get? r <;> simp [hr, Option.filter]
    · cases st.messages.get? r <;> simp [hr, Option.filter]
  · intro r id
    simp only [view, removeDerived, View.removed, Keyed.get?_filterRows, Option.filter_eq_some_iff, decide_eq_true_eq]
    constructor
    · rintro ⟨ids, ⟨hget, hne⟩, href⟩
      exact ⟨hne, ids, hget, href⟩
    · rintro ⟨hne, ids, hget, href⟩
      exact ⟨ids, ⟨hget, hne⟩, href⟩
  · intro r id
    simp only [view, removeDerived, View.removed, Keyed.get?_filterRows, Option.filter_eq_some_iff, decide_eq_true_eq]
    constructor
    · rintro ⟨ids, ⟨hget, hne⟩, href⟩
      exact ⟨hne, ids, hget, href⟩
    · rintro ⟨hne, ids, hget, href⟩
      exact ⟨ids, ⟨hget, hne⟩, href⟩

theorem OneAccount.removeDerived (h : st.OneAccount account) (key : Text) :
    (st.removeDerived scope key).OneAccount account := by
  intro r m hm
  rw [Mem.removeDerived, Keyed.get?_filterRows, Option.filter_eq_some_iff] at hm
  exact h r m hm.1

theorem view_upsertMessage (row : MailRow) : (st.upsertMessage scope row).view = st.view.upserted scope row := by
  apply View.ext_of
  · intro r
    simp only [view, upsertMessage, View.upserted, Keyed.get?_put]
    by_cases hr : r = (scope, row.key)
    · simp [hr]
    · simp [hr]
  · exact fun _ _ => Iff.rfl
  · exact fun _ _ => Iff.rfl

theorem OneAccount.upsertMessage (h : st.OneAccount account) (hscope : scope.account = account)
    (row : MailRow) : (st.upsertMessage scope row).OneAccount account := by
  intro r m hm
  rw [Mem.upsertMessage, Keyed.get?_put] at hm
  by_cases hr : r = (scope, row.key)
  · rw [hr]
    exact hscope
  · rw [if_neg hr] at hm
    exact h r m hm

theorem upsertMessage_holds (row : MailRow) (r : Row) : (∃ m, st.messages.get? r = some m) ∨
    r = (scope, row.key) → ∃ m, (st.upsertMessage scope row).messages.get? r = some m := by
  intro h
  rw [upsertMessage, Keyed.get?_put]
  by_cases hr : r = (scope, row.key)
  · rw [if_pos hr]
    exact ⟨_, rfl⟩
  · rw [if_neg hr]
    exact h.resolve_right hr

theorem messages_foldl_insertRefs (groups : List (Text × List MailRefRow)) (st : Mem) :
    (groups.foldl (insertRefs scope) st).messages = st.messages := by
  induction groups generalizing st with
  | nil => rfl
  | cons group rest ih => exact ih (st.insertRefs scope group)

theorem get?_foldl_insertRefs (scope : SyncScope) (groups : List (Text × List MailRefRow))
    (hnd : (groups.map Prod.fst).Nodup) (st : Mem) (r : Row) :
    (r.1 = scope → ∀ ids, (r.2, ids) ∈ groups → (groups.foldl (insertRefs scope) st).refs.get? r = some ids) ∧
    (¬ (r.1 = scope ∧ r.2 ∈ groups.map Prod.fst) →
      (groups.foldl (insertRefs scope) st).refs.get? r = st.refs.get? r) := by
  induction groups generalizing st with
  | nil => exact ⟨fun _ _ h => absurd h List.not_mem_nil, fun _ => rfl⟩
  | cons group rest ih =>
    obtain ⟨key, ids⟩ := group
    rw [List.map_cons, List.nodup_cons] at hnd
    obtain ⟨hin, hout⟩ := ih hnd.2 (st.insertRefs scope (key, ids))
    have hput : (st.insertRefs scope (key, ids)).refs.get? r =
        if r = (scope, key) then some ids else st.refs.get? r := Keyed.get?_put _ _ _ _
    rw [List.foldl_cons]
    constructor
    · intro hscope ids' hmem
      rcases List.mem_cons.mp hmem with heq | hmem
      · obtain ⟨hk, hids⟩ := Prod.mk.inj heq
        have hno : ¬ (r.1 = scope ∧ r.2 ∈ rest.map Prod.fst) := fun hc => hnd.1 (hk ▸ hc.2)
        rw [hout hno, hput, if_pos (Prod.ext hscope hk), hids]
      · exact hin hscope ids' hmem
    · intro hno
      rw [List.map_cons, List.mem_cons] at hno
      have hk : r ≠ (scope, key) := fun hr => hno ⟨by rw [hr], Or.inl (by rw [hr])⟩
      rw [hout fun hc => hno ⟨hc.1, Or.inr hc.2⟩, hput, if_neg hk]

theorem view_insertRefs (refs : List MailRefRow) :
    ((Keyed.group refs MailRefRow.key).rows.foldl (insertRefs scope) st).view = st.view.referenced scope refs := by
  have hmem : ∀ key ids, (key, ids) ∈ (Keyed.group refs MailRefRow.key).rows ↔
      ids = refs.filter (fun ref => ref.key = key) ∧ key ∈ refs.map MailRefRow.key := by
    intro key ids
    rw [List.mem_map, ← Keyed.get?_eq_some_iff]
    exact Keyed.get?_group refs MailRefRow.key key
  have hget := fun r => get?_foldl_insertRefs scope
    (Keyed.group refs MailRefRow.key).rows (Keyed.group refs MailRefRow.key).distinct st r
  have hnamed : ∀ r : Row, r.1 = scope ∧ r.2 ∈ refs.map MailRefRow.key →
      ((Keyed.group refs MailRefRow.key).rows.foldl (insertRefs scope) st).refs.get? r =
        some (refs.filter fun ref => ref.key = r.2) :=
    fun r hr => (hget r).1 hr.1 _ ((hmem r.2 _).mpr ⟨rfl, hr.2⟩)
  have helse : ∀ r : Row, ¬ (r.1 = scope ∧ r.2 ∈ refs.map MailRefRow.key) →
      ((Keyed.group refs MailRefRow.key).rows.foldl (insertRefs scope) st).refs.get? r = st.refs.get? r := by
    intro r hr
    refine (hget r).2 fun hc => ?_
    obtain ⟨⟨key, ids⟩, hrow, hkey⟩ := List.mem_map.mp hc.2
    exact hr ⟨hc.1, hkey ▸ ((hmem key ids).mp hrow).2⟩
  apply View.ext_of
  · intro r
    simp only [view, messages_foldl_insertRefs, View.referenced]
  · intro r id
    simp only [view, View.referenced]
    by_cases hr : r.1 = scope ∧ r.2 ∈ refs.map MailRefRow.key
    · rw [hnamed r hr, if_pos hr]
      simp [and_assoc]
    · rw [helse r hr, if_neg hr]
  · intro r id
    simp only [view, View.referenced]
    by_cases hr : r.1 = scope ∧ r.2 ∈ refs.map MailRefRow.key
    · rw [hnamed r hr, if_pos hr]
      simp [and_assoc]
    · rw [helse r hr, if_neg hr]

/-! ## Deciding a component -/

section Decide

variable {byKey : ByKey} {component : List MailRow} {t : Text} {member : Member}

theorem mem_accountMembers (h : st.OneAccount account) :
    member ∈ st.accountMembers account ↔ ∃ m, st.messages.get? member.row = some m ∧
      st.refs.get? member.row = some member.ids ∧ member.ids ≠ [] ∧
      member.thread = m.threadId := by
  rw [accountMembers, List.mem_filterMap]
  constructor
  · rintro ⟨⟨r, m⟩, hrow, hval⟩
    have hm := (Keyed.get?_eq_some_iff _).mpr hrow
    rw [if_pos (h r m hm)] at hval
    cases hids : st.refs.get? r with
    | none => simp [hids] at hval
    | some ids =>
      cases hemp : ids.isEmpty with
      | true => simp [hids, hemp] at hval
      | false =>
        simp only [hids, hemp, Bool.false_eq_true, if_false, Option.some.injEq] at hval
        subst hval
        exact ⟨m, hm, hids, by simpa using hemp, rfl⟩
  · rintro ⟨m, hm, hids, hne, hthread⟩
    refine ⟨(member.row, m), (Keyed.get?_eq_some_iff _).mp hm, ?_⟩
    have hemp : member.ids.isEmpty = false := by simpa using hne
    simp only [if_pos (h _ m hm), hids, hemp, Bool.false_eq_true, if_false, ← hthread]

theorem member_view (h : st.OneAccount account) (hm : member ∈ st.accountMembers account) :
    st.view.thread member.row = member.thread ∧ member.row ∈ st.view.graphed ∧
      (∀ id, st.view.touches member.row id ↔ ∃ ref ∈ member.ids, ref.msgid = id) ∧
      ∀ id, st.view.owns member.row id ↔ ∃ ref ∈ member.ids, ref.msgid = id ∧ ref.owned = true := by
  obtain ⟨m, hget, hids, hne, hthread⟩ := (mem_accountMembers h).mp hm
  have htouch : ∀ id, st.view.touches member.row id ↔ ∃ ref ∈ member.ids, ref.msgid = id := by
    intro id
    show (∃ ids, st.refs.get? member.row = some ids ∧ _) ↔ _
    rw [hids]
    simp
  refine ⟨?_, ?_, htouch, ?_⟩
  · show (st.messages.get? member.row).bind MailRow.threadId = _
    rw [hget, hthread]
    rfl
  · obtain ⟨ref, href⟩ := List.exists_mem_of_ne_nil _ hne
    exact ⟨ref.msgid, (htouch _).mpr ⟨ref, href, rfl⟩⟩
  · intro id
    show (∃ ids, st.refs.get? member.row = some ids ∧ _) ↔ _
    rw [hids]
    simp

theorem exists_member (h : st.OneAccount account) {r : Row} (hg : r ∈ st.view.graphed)
    (ht : st.view.thread r = some t) : ∃ member ∈ st.accountMembers account, member.row = r := by
  obtain ⟨id, ids, hids, ref, href, -⟩ := hg
  obtain ⟨m, hm, -⟩ := Option.bind_eq_some_iff.mp ht
  exact ⟨⟨r, m.threadId, ids⟩, (mem_accountMembers h).mpr ⟨m, hm, hids, List.ne_nil_of_mem href, rfl⟩, rfl⟩

section Reached

variable (h : st.OneAccount account)
  (hr : st.view.Reflects scope byKey (component.map MailRow.key))
include h hr

theorem mem_reached : t ∈ ((st.accountMembers account).filter fun member =>
      member.ids.any fun row => row.msgid ∈ byKey.touched component).filterMap Member.thread ↔
    t ∈ st.view.reached (rowsOf scope component) := by
  simp only [List.mem_filterMap, List.mem_filter, List.any_eq_true, decide_eq_true_eq]
  constructor
  · rintro ⟨member, ⟨hm, ref, href, hid⟩, ht⟩
    obtain ⟨hthread, -, htouch, -⟩ := member_view h hm
    obtain ⟨b, hb, hbid⟩ := (View.mem_touched hr).mp hid
    exact ⟨member.row, hthread.trans ht, b, hb, ref.msgid, (htouch _).mpr ⟨ref, href, rfl⟩, hbid⟩
  · rintro ⟨r, ht, b, hb, id, hrid, hbid⟩
    obtain ⟨member, hm, rfl⟩ := exists_member h ⟨id, hrid⟩ ht
    obtain ⟨hthread, -, htouch, -⟩ := member_view h hm
    obtain ⟨ref, href, hid⟩ := (htouch id).mp hrid
    refine ⟨member, ⟨hm, ref, href, ?_⟩, hthread.symm.trans ht⟩
    rw [hid]
    exact (View.mem_touched hr).mpr ⟨b, hb, hbid⟩

theorem exists_membersOf {P : Row → Prop} : (∃ member ∈ membersOf (st.accountMembers account)
      (((st.accountMembers account).filter fun member =>
        member.ids.any fun row => row.msgid ∈ byKey.touched component).filterMap Member.thread),
      P member.row) ↔
    ∃ r ∈ st.view.graphed ∩ st.view.under (st.view.reached (rowsOf scope component)), P r := by
  simp only [membersOf, List.mem_filter, Option.any_eq_true, decide_eq_true_eq]
  constructor
  · rintro ⟨member, ⟨hm, t, ht, hin⟩, hP⟩
    obtain ⟨hthread, hg, -, -⟩ := member_view h hm
    exact ⟨member.row, ⟨hg, t, (mem_reached h hr).mp hin, hthread.trans ht⟩, hP⟩
  · rintro ⟨r, ⟨hg, t, hin, ht⟩, hP⟩
    obtain ⟨member, hm, rfl⟩ := exists_member h hg ht
    obtain ⟨hthread, -, -, -⟩ := member_view h hm
    exact ⟨member, ⟨hm, t, hthread.symm.trans ht, (mem_reached h hr).mpr hin⟩, hP⟩

theorem mem_ownedOf {id : Text} : id ∈ (((membersOf (st.accountMembers account)
      (((st.accountMembers account).filter fun member =>
        member.ids.any fun row => row.msgid ∈ byKey.touched component).filterMap
          Member.thread)).flatMap Member.ids).filter MailRefRow.owned).map MailRefRow.msgid ↔
    ∃ r ∈ st.view.graphed ∩ st.view.under (st.view.reached (rowsOf scope component)), st.view.owns r id := by
  rw [← exists_membersOf h hr]
  simp only [List.mem_map, List.mem_filter, List.mem_flatMap]
  constructor
  · rintro ⟨ref, ⟨⟨member, hm, href⟩, hown⟩, hid⟩
    obtain ⟨-, -, -, howns⟩ := member_view h (List.mem_filter.mp hm).1
    exact ⟨member, hm, (howns id).mpr ⟨ref, href, hid, hown⟩⟩
  · rintro ⟨member, hm, hown⟩
    obtain ⟨-, -, -, howns⟩ := member_view h (List.mem_filter.mp hm).1
    obtain ⟨ref, href, hid, howned⟩ := (howns id).mp hown
    exact ⟨ref, ⟨⟨member, hm, href⟩, howned⟩, hid⟩

/-- A component with a row decides one thread, the name of itself and of the graphed rows
under the threads it reaches, for all of these. -/
theorem componentAssignments_spec (hne : component ≠ []) :
    ∃ t, IsName st.view.owns Prod.snd (st.view.moved (rowsOf scope component)) t ∧
      ∀ a, a ∈ componentAssignments (st.accountMembers account) scope byKey component ↔
        a.1 ∈ st.view.moved (rowsOf scope component) ∧ a.2 = t := by
  have hsome : ∃ t, ((byKey.owned component ++ (((membersOf (st.accountMembers account)
      (((st.accountMembers account).filter fun member =>
        member.ids.any fun row => row.msgid ∈ byKey.touched component).filterMap
          Member.thread)).flatMap Member.ids).filter MailRefRow.owned).map MailRefRow.msgid).min?).or
      ((component.map MailRow.key ++ (membersOf (st.accountMembers account)
        (((st.accountMembers account).filter fun member =>
          member.ids.any fun row => row.msgid ∈ byKey.touched component).filterMap
            Member.thread)).map fun member => member.row.2).min?) = some t := by
    rw [← Option.isSome_iff_exists, Option.isSome_or, Bool.or_eq_true]
    right
    rw [Option.isSome_iff_ne_none, ne_eq, List.min?_eq_none_iff, List.append_eq_nil_iff, List.map_eq_nil_iff]
    exact fun hc => hne hc.1
  obtain ⟨t, ht⟩ := hsome
  refine ⟨t, IsName.of_min? ?_ ?_ ht, ?_⟩
  · intro id
    rw [List.mem_append, View.mem_owned hr, mem_ownedOf h hr]
    simp only [View.moved, Set.mem_union, or_and_right, exists_or]
  · intro key
    rw [List.mem_append, List.mem_map, List.mem_map]
    have hkeys : (∃ row ∈ component, row.key = key) ↔ ∃ r ∈ rowsOf scope component, r.2 = key := by
      constructor
      · rintro ⟨row, hrow, rfl⟩
        exact ⟨(scope, row.key), ⟨row, hrow, rfl⟩, rfl⟩
      · rintro ⟨_, ⟨row, hrow, rfl⟩, rfl⟩
        exact ⟨row, hrow, rfl⟩
    rw [hkeys, exists_membersOf h hr (P := fun r => r.2 = key)]
    simp only [View.moved, Set.mem_union, or_and_right, exists_or]
  · rintro ⟨r, s⟩
    rw [componentAssignments]
    simp only [ht, List.mem_append, List.mem_map, Prod.mk.injEq]
    constructor
    · rintro (⟨member, hm, rfl, rfl⟩ | ⟨row, hrow, rfl, rfl⟩)
      · refine ⟨Or.inr ?_, rfl⟩
        obtain ⟨r, hr', heq⟩ := (exists_membersOf h hr (P := fun r => r = member.row)).mp ⟨member, hm, rfl⟩
        exact heq ▸ hr'
      · exact ⟨Or.inl ⟨row, hrow, rfl⟩, rfl⟩
    · rintro ⟨⟨row, hrow, rfl⟩ | hin, rfl⟩
      · exact Or.inr ⟨row, hrow, rfl, rfl⟩
      · obtain ⟨member, hm, heq⟩ := (exists_membersOf h hr (P := fun r' => r' = r)).mpr ⟨r, hin, rfl⟩
        exact Or.inl ⟨member, hm, heq, rfl⟩

end Reached

end Decide

end Mem
end Threading
end SyncEngine
