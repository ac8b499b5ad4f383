import SyncEngine.Threading.MemView

/-!
# Applying a page to the reference store

What an apply does to the view: the page is taken in as in the durable store, and its
components are decided against the view the page left.
-/

namespace SyncEngine
namespace Threading
namespace Mem

variable {st : Mem} {page : Page} {account : AccountId}

variable {α : Type} {op : Mem → α → Mem}

theorem OneAccount.foldl (hop : ∀ st a, st.OneAccount account → (op st a).OneAccount account) (l : List α) (st : Mem)
    (h : st.OneAccount account) : (l.foldl op st).OneAccount account := by
  induction l generalizing st with
  | nil => exact h
  | cons a rest ih => exact ih _ (hop st a h)

theorem view_foldl {step : View → α → View} (hop : ∀ st a, (op st a).view = step st.view a) (l : List α) (st : Mem) :
    (l.foldl op st).view = l.foldl step st.view := by
  induction l generalizing st with
  | nil => rfl
  | cons a rest ih => rw [List.foldl_cons, ih, hop, List.foldl_cons]

/-! ## Writing assignments -/

theorem get?_setThread (st : Mem) (a : Row × Text) (r : Row) : (st.setThread a).messages.get? r =
      if r = a.1 then (st.messages.get? r).map fun row => { row with threadId := some a.2 }
      else st.messages.get? r := Keyed.get?_modify _ _ _ _

theorem holds_setThread (st : Mem) (a : Row × Text) (r : Row) :
    (∃ m, (st.setThread a).messages.get? r = some m) ↔ ∃ m, st.messages.get? r = some m := by
  rw [get?_setThread]
  by_cases hr : r = a.1
  · simp [hr]
  · simp [hr]

theorem OneAccount.setThread (h : st.OneAccount account) (a : Row × Text) : (st.setThread a).OneAccount account := by
  intro r m hm
  obtain ⟨m', hm'⟩ := (holds_setThread st a r).mp ⟨m, hm⟩
  exact h r m' hm'

variable (l : List (Row × Text))

theorem holds_foldl_setThread (st : Mem) (r : Row) :
    (∃ m, (l.foldl setThread st).messages.get? r = some m) ↔ ∃ m, st.messages.get? r = some m := by
  induction l generalizing st with
  | nil => exact Iff.rfl
  | cons a rest ih => exact (ih (st.setThread a)).trans (holds_setThread st a r)

theorem refs_foldl_setThread (st : Mem) : (l.foldl setThread st).refs = st.refs := by
  induction l generalizing st with
  | nil => rfl
  | cons a rest ih => exact ih (st.setThread a)

variable {t : Text} {r : Row}

theorem thread_foldl_setThread (st : Mem) (hrow : ∃ m, st.messages.get? r = some m) (hsame : ∀ a ∈ l, a.1 = r → a.2 = t)
    (hin : (∃ a ∈ l, a.1 = r) ∨ st.view.thread r = some t) :
    (l.foldl setThread st).view.thread r = some t := by
  induction l generalizing st with
  | nil =>
    rcases hin with ⟨a, ha, -⟩ | hin
    · exact absurd ha List.not_mem_nil
    · exact hin
  | cons a rest ih =>
    refine ih (st.setThread a) ((holds_setThread st a r).mpr hrow) (fun b hb => hsame b (List.mem_cons_of_mem _ hb)) ?_
    by_cases har : a.1 = r
    · right
      obtain ⟨m, hm⟩ := hrow
      show ((st.setThread a).messages.get? r).bind MailRow.threadId = some t
      rw [get?_setThread, if_pos har.symm, hm, hsame a List.mem_cons_self har]
      rfl
    · rcases hin with ⟨b, hb, hbr⟩ | hin
      · rcases List.mem_cons.mp hb with rfl | hb
        · exact absurd hbr har
        · exact Or.inl ⟨b, hb, hbr⟩
      · right
        show ((st.setThread a).messages.get? r).bind MailRow.threadId = some t
        rw [get?_setThread, if_neg (Ne.symm har)]
        exact hin

theorem thread_foldl_setThread_elsewhere (st : Mem)
    (hno : ∀ a ∈ l, a.1 ≠ r) : (l.foldl setThread st).view.thread r = st.view.thread r := by
  induction l generalizing st with
  | nil => rfl
  | cons a rest ih =>
    rw [List.foldl_cons, ih _ fun b hb => hno b (List.mem_cons_of_mem _ hb)]
    show ((st.setThread a).messages.get? r).bind MailRow.threadId = _
    rw [get?_setThread, if_neg (hno a List.mem_cons_self).symm]
    rfl

theorem view_foldl_setThread {l : List (Row × Text)} {rows : Set Row} (hl : ∀ a, a ∈ l ↔ a.1 ∈ rows ∧ a.2 = t) (st : Mem)
    (hrows : ∀ r ∈ rows, ∃ m, st.messages.get? r = some m) :
    (l.foldl setThread st).view = st.view.put rows t := by
  apply View.ext_of
  · intro r
    by_cases hr : r ∈ rows
    · rw [View.put_of_mem hr]
      refine thread_foldl_setThread l st (hrows r hr) (fun a ha _ => ((hl a).mp ha).2) ?_
      exact Or.inl ⟨(r, t), (hl (r, t)).mpr ⟨hr, rfl⟩, rfl⟩
    · rw [View.put_of_not_mem hr]
      refine thread_foldl_setThread_elsewhere l st ?_
      rintro a ha rfl
      exact hr ((hl a).mp ha).1
  · intro r id
    show (∃ ids, _ = some ids ∧ _) ↔ _
    rw [refs_foldl_setThread]
    rfl
  · intro r id
    show (∃ ids, _ = some ids ∧ _) ↔ _
    rw [refs_foldl_setThread]
    rfl

/-! ## The page -/

def write (st : Mem) (page : Page) : Mem :=
  let st := page.removed.foldl (removeDerived page.scope) st
  let st := page.rows.foldl (upsertMessage page.scope) st
  (Keyed.group page.refs MailRefRow.key).rows.foldl (insertRefs page.scope) st

theorem view_write (st : Mem) (page : Page) : (st.write page).view = st.view.written page := by
  rw [write, view_insertRefs, view_foldl (fun st row => view_upsertMessage row),
    view_foldl (fun st key => view_removeDerived key), View.written]

theorem oneAccount_write (h : st.OneAccount page.scope.account) : (st.write page).OneAccount page.scope.account := by
  intro r m hm
  rw [write, messages_foldl_insertRefs] at hm
  have hfold : (page.rows.foldl (upsertMessage page.scope)
      (page.removed.foldl (removeDerived page.scope) st)).OneAccount page.scope.account :=
    OneAccount.foldl (fun st row h => h.upsertMessage rfl row) _ _
      (OneAccount.foldl (fun st key h => h.removeDerived key) _ _ h)
  exact hfold r m hm

theorem holds_write (st : Mem) (page : Page) {row : MailRow} (hrow : row ∈ page.rows) :
    ∃ m, (st.write page).messages.get? (page.scope, row.key) = some m := by
  rw [write, messages_foldl_insertRefs]
  generalize page.removed.foldl (removeDerived page.scope) st = st
  generalize page.rows = rows at hrow
  have hkeep : ∀ (rows : List MailRow) (st : Mem) (r : Row), (∃ m, st.messages.get? r = some m) →
      ∃ m, (rows.foldl (upsertMessage page.scope) st).messages.get? r = some m := by
    intro rows
    induction rows with
    | nil => exact fun _ _ h => h
    | cons row rest ih => exact fun st r h => ih _ r (upsertMessage_holds row r (Or.inl h))
  induction rows generalizing st with
  | nil => exact absurd hrow List.not_mem_nil
  | cons first rest ih =>
    rcases List.mem_cons.mp hrow with rfl | hrow
    · exact hkeep rest _ _ (upsertMessage_holds row _ (Or.inr rfl))
    · exact ih (st.upsertMessage page.scope first) hrow

/-- The messages without ids that are on no thread, each put on its own key. -/
def singletons (st : Mem) (page : Page) : List (Row × Text) :=
  (page.bare.filter fun row =>
    (st.messages.get? (page.scope, row.key)).any fun stored => stored.threadId.isNone).map
      fun row => ((page.scope, row.key), row.key)

variable (order : HashOrder (List MailRow))

theorem applyPage_eq (st : Mem) (page : Page) : st.applyPage order page = (order.arrange page.components).foldl
      (fun st' c => (componentAssignments ((st.write page).accountMembers page.scope.account)
        page.scope (Keyed.group page.refs MailRefRow.key) c).foldl setThread st')
      (((st.write page).singletons page).foldl setThread (st.write page)) := by
  by_cases hrows : page.rows = []
  · have hcomp : page.components = [] := by
      rw [Page.components, page.graphed_eq, hrows]
      rfl
    have harr : order.arrange [] = [] := List.perm_nil.mp (order.perm [])
    rw [hcomp, harr, singletons, page.bare_eq, applyPage]
    simp [hrows, write]
  · rw [Page.components, page.graphed_eq, singletons, page.bare_eq, applyPage]
    simp [hrows, assignThreads, write, List.foldl_append, List.foldl_flatMap]

theorem view_singletons (st : Mem) (page : Page)
    (hrows : ∀ row ∈ page.rows, ∃ m, st.messages.get? (page.scope, row.key) = some m) :
    ((st.singletons page).foldl setThread st).view =
      (page.bare.map MailRow.key).foldl (View.bared page.scope) st.view := by
  have hmem : ∀ a, a ∈ st.singletons page ↔ (a.1.1 = page.scope ∧
      a.1.2 ∈ page.bare.map MailRow.key) ∧ st.view.thread a.1 = none ∧ a.2 = a.1.2 := by
    rintro ⟨⟨s, k⟩, t⟩
    simp only [singletons, List.mem_map, List.mem_filter, Prod.mk.injEq]
    constructor
    · rintro ⟨row, ⟨hrow, hany⟩, ⟨rfl, rfl⟩, rfl⟩
      refine ⟨⟨rfl, row, hrow, rfl⟩, ?_, rfl⟩
      obtain ⟨m, hm, hnone⟩ := (Option.any_eq_true _ _).mp hany
      show (st.messages.get? _).bind MailRow.threadId = none
      rw [hm]
      exact Option.isNone_iff_eq_none.mp hnone
    · rintro ⟨⟨rfl, row, hrow, rfl⟩, hnone, rfl⟩
      refine ⟨row, ⟨hrow, ?_⟩, ⟨rfl, rfl⟩, rfl⟩
      obtain ⟨m, hm⟩ := hrows row (List.mem_filter.mp hrow).1
      refine (Option.any_eq_true _ _).mpr ⟨m, hm, ?_⟩
      have hnone' : (st.messages.get? (page.scope, row.key)).bind MailRow.threadId = none := hnone
      rw [hm] at hnone'
      exact Option.isNone_iff_eq_none.mpr hnone'
  apply View.ext_of
  · intro r
    rw [View.thread_foldl_bared]
    by_cases hr : (r.1 = page.scope ∧ r.2 ∈ page.bare.map MailRow.key) ∧ st.view.thread r = none
    · rw [if_pos hr]
      have hin : (r, r.2) ∈ st.singletons page := (hmem (r, r.2)).mpr ⟨hr.1, hr.2, rfl⟩
      refine thread_foldl_setThread _ st ?_ ?_ (Or.inl ⟨_, hin, rfl⟩)
      · obtain ⟨row, hrow, hk⟩ := List.mem_map.mp hr.1.2
        obtain ⟨m, hm⟩ := hrows row (List.mem_filter.mp hrow).1
        exact ⟨m, by rw [← hm]; congr 1; exact Prod.ext hr.1.1 hk.symm⟩
      · rintro a ha rfl
        exact ((hmem a).mp ha).2.2
    · rw [if_neg hr]
      refine thread_foldl_setThread_elsewhere _ st ?_
      rintro a ha rfl
      obtain ⟨h₁, h₂, -⟩ := (hmem a).mp ha
      exact hr ⟨h₁, h₂⟩
  · intro r id
    rw [(View.touches_foldl_bared _ _ _).1]
    show (∃ ids, _ = some ids ∧ _) ↔ _
    rw [refs_foldl_setThread]
    rfl
  · intro r id
    rw [(View.touches_foldl_bared _ _ _).2]
    show (∃ ids, _ = some ids ∧ _) ↔ _
    rw [refs_foldl_setThread]
    rfl

theorem view_foldl_decide {base : Mem} {scope : SyncScope} {byKey : ByKey} {u : View}
    (h : base.OneAccount account) (howns : base.view.owns = u.owns)
    (hmoved : ∀ batch, u.moved batch = base.view.moved batch) (comps : List (List MailRow))
    (hne : ∀ c ∈ comps, c ≠ [])
    (hr : ∀ c ∈ comps, base.view.Reflects scope byKey (c.map MailRow.key))
    (hs : ∀ c ∈ comps, ∀ row ∈ c, ∃ m, base.messages.get? (scope, row.key) = some m) (st : Mem)
    (hst : ∀ r, (∃ m, base.messages.get? r = some m) → ∃ m, st.messages.get? r = some m) :
    AssignsFrom u st.view (comps.map (rowsOf scope)) (comps.foldl (fun st c =>
      (componentAssignments (base.accountMembers account) scope byKey c).foldl setThread st) st).view := by
  induction comps generalizing st with
  | nil => exact .nil _
  | cons c rest ih =>
    obtain ⟨t, hname, hmem⟩ := componentAssignments_spec h (hr c List.mem_cons_self) (hne c List.mem_cons_self)
    have hrows : ∀ r ∈ base.view.moved (rowsOf scope c), ∃ m, st.messages.get? r = some m := by
      intro r hr
      refine hst r ?_
      rcases hr with ⟨row, hrow, rfl⟩ | ⟨-, t, -, ht⟩
      · exact hs c List.mem_cons_self row hrow
      · obtain ⟨m, hm, -⟩ := Option.bind_eq_some_iff.mp ht
        exact ⟨m, hm⟩
    have hview := view_foldl_setThread hmem st hrows
    rw [howns, ← hmoved] at hname
    refine .cons hname ?_
    rw [hmoved, ← hview]
    refine ih (fun c hc => hne c (List.mem_cons_of_mem _ hc)) (fun c hc => hr c (List.mem_cons_of_mem _ hc))
      (fun c hc => hs c (List.mem_cons_of_mem _ hc)) _ fun r hr => ?_
    exact (holds_foldl_setThread _ st r).mpr (hst r hr)

/-- The store before a page's components are decided: its messages without ids stand alone. -/
def receive (st : Mem) (page : Page) : Mem := ((st.write page).singletons page).foldl setThread (st.write page)

theorem view_receive : (st.receive page).view = st.view.received page := by
  rw [receive, view_singletons _ page fun row hrow => holds_write st page hrow, view_write, View.received]

theorem applyPage_view (h : st.OneAccount page.scope.account) (hbare : ∀ key ∈ page.bare.map MailRow.key,
      (st.view.written page).thread (page.scope, key) = none → (page.scope, key) ∉ (st.view.written page).graphed) :
    AssignsFrom (st.view.received page) (st.view.received page) ((order.arrange page.components).map (rowsOf page.scope))
      (st.applyPage order page).view := by
  have hmem : ∀ c ∈ order.arrange page.components, c ∈ page.components := fun c hc => (order.perm _).mem_iff.mp hc
  rw [applyPage_eq]
  conv => arg 2; rw [← view_receive]
  refine view_foldl_decide (oneAccount_write h) ?_ ?_ _ ?_ ?_ ?_ _ ?_
  · rw [view_write, (View.touches_received_eq _ _).2]
  · intro batch
    rw [view_write, View.moved_received hbare]
  · rintro c hc rfl
    obtain ⟨first, hfirst, -⟩ := components_connected (hmem _ hc)
    exact absurd hfirst List.not_mem_nil
  · intro c hc key hkey id
    have href := View.reflects_received (v := st.view)
      (fun key hkey => (Page.graphed_keys (hmem c hc) hkey).1) key hkey id
    rw [(View.touches_received_eq _ _).1, (View.touches_received_eq _ _).2] at href
    rw [view_write]
    exact href
  · intro c hc row hrow
    have hrow' := (List.mem_filter.mp (components_subset (hmem c hc) hrow)).1
    exact holds_write st page hrow'
  · intro r hr
    exact (holds_foldl_setThread _ _ r).mpr hr

theorem oneAccount_applyPage (h : st.OneAccount page.scope.account) :
    (st.applyPage order page).OneAccount page.scope.account := by
  rw [applyPage_eq]
  refine OneAccount.foldl (fun st c h => ?_) _ _ ?_
  · exact OneAccount.foldl (fun st a h => h.setThread a) _ _ h
  · exact OneAccount.foldl (fun st a h => h.setThread a) _ _ (oneAccount_write h)

end Mem
end Threading
end SyncEngine
