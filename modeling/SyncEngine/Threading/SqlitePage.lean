import SyncEngine.Threading.SqliteView

/-!
# Applying a page to the durable store

What an apply does to the view: the page is taken in, and then its components are
assigned one after the other, in whatever order they come.
-/

namespace SyncEngine
namespace Threading

namespace Sqlite

variable {st : Sqlite} {page : Page} {account : AccountId}

variable {α : Type} {op : Sqlite → α → Sqlite}

theorem OneAccount.foldl (hop : ∀ st a, st.OneAccount account → (op st a).OneAccount account) (l : List α) (st : Sqlite)
    (h : st.OneAccount account) : (l.foldl op st).OneAccount account := by
  induction l generalizing st with
  | nil => exact h
  | cons a rest ih => exact ih _ (hop st a h)

theorem view_foldl {step : View → α → View} (hop : ∀ st a, (op st a).view = step st.view a) (l : List α) (st : Sqlite) :
    (l.foldl op st).view = l.foldl step st.view := by
  induction l generalizing st with
  | nil => rfl
  | cons a rest ih => rw [List.foldl_cons, ih, hop, List.foldl_cons]

variable (scope : SyncScope)

theorem holds_foldl_upsert (rows : List MailRow) (st : Sqlite) :
    (rows.foldl (upsertMessage scope account) st).Holds scope (rows.map MailRow.key) := by
  have hkeep : ∀ (rows : List MailRow) (st : Sqlite) (r : Row), (∃ m, st.message.get? r = some m) →
      ∃ m, (rows.foldl (upsertMessage scope account) st).message.get? r = some m := by
    intro rows
    induction rows with
    | nil => exact fun _ _ h => h
    | cons row rest ih => exact fun st r h => ih _ r (upsertMessage_holds row r (Or.inl h))
  intro key hkey
  obtain ⟨row, hrow, rfl⟩ := List.mem_map.mp hkey
  induction rows generalizing st with
  | nil => exact absurd hrow List.not_mem_nil
  | cons first rest ih =>
    rcases List.mem_cons.mp hrow with rfl | hrow
    · exact hkeep rest _ _ (upsertMessage_holds row _ (Or.inr rfl))
    · exact ih (st.upsertMessage scope account first) hrow (List.mem_map_of_mem hrow)

theorem view_foldl_setBare (keys : List Text) (st : Sqlite)
    (h : st.Holds scope keys) : (keys.foldl (setBare scope) st).view = keys.foldl (View.bared scope) st.view ∧
    ∀ r, (∃ m, (keys.foldl (setBare scope) st).message.get? r = some m) ↔ ∃ m, st.message.get? r = some m := by
  induction keys generalizing st with
  | nil => exact ⟨rfl, fun _ => Iff.rfl⟩
  | cons key rest ih =>
    have hrest : (st.setBare scope key).Holds scope rest := by
      intro k hk
      exact (holds_setBare _).mpr (h k (List.mem_cons_of_mem _ hk))
    obtain ⟨hview, hrow⟩ := ih _ hrest
    refine ⟨?_, fun r => (hrow r).trans (holds_setBare r)⟩
    rw [List.foldl_cons, hview, view_setBare (h key List.mem_cons_self), List.foldl_cons]

/-- The state once the page is written, before its components are assigned. -/
def receive (st : Sqlite) (page : Page) : Sqlite :=
  let st := page.removed.foldl (deleteDerivedRows page.scope) st
  let st := page.rows.foldl (upsertMessage page.scope page.scope.account) st
  let st := replaceRefs page.scope page.scope.account st page.refs
  (page.bare.map MailRow.key).foldl (setBare page.scope) st

variable (order : HashOrder (List MailRow))

theorem applyPage_eq (st : Sqlite) (page : Page) : st.applyPage order page = (order.arrange page.components).foldl
      (assignComponent page.scope page.scope.account (Keyed.group page.refs MailRefRow.key))
      (st.receive page) := by
  by_cases hrows : page.rows = []
  · have hmsgs : page.messages = [] := List.map_eq_nil_iff.mp hrows
    have hrefs : page.refs = [] := by rw [Page.refs, hmsgs]; rfl
    have hcomp : page.components = [] := by
      rw [Page.components, page.graphed_eq, hrows]
      rfl
    have harr : order.arrange [] = [] := List.perm_nil.mp (order.perm [])
    rw [applyPage, hcomp, harr, receive, page.bare_eq]
    simp [hrows, hrefs, replaceRefs]
  · rw [applyPage, receive, Page.components, page.graphed_eq, page.bare_eq]
    simp [hrows, assignThreads]

theorem oneAccount_receive (h : st.OneAccount page.scope.account) : (st.receive page).OneAccount page.scope.account := by
  refine OneAccount.foldl (fun st key h => h.setBare key) _ _ ?_
  refine OneAccount.replaceRefs ?_ _
  refine OneAccount.foldl (fun st row h => h.upsertMessage row) _ _ ?_
  exact OneAccount.foldl (fun st key h => h.deleteDerivedRows key) _ _ h

theorem holds_written (st : Sqlite) (page : Page) : (replaceRefs page.scope page.scope.account
      (page.rows.foldl (upsertMessage page.scope page.scope.account)
        (page.removed.foldl (deleteDerivedRows page.scope) st)) page.refs).Holds page.scope
      (page.rows.map MailRow.key) := by
  intro key hkey
  rw [message_replaceRefs]
  exact holds_foldl_upsert page.scope page.rows _ key hkey

theorem view_receive (st : Sqlite) (page : Page) : (st.receive page).view = st.view.received page := by
  have hbare : ∀ key ∈ page.bare.map MailRow.key, key ∈ page.rows.map MailRow.key := by
    intro key hkey
    obtain ⟨row, hrow, rfl⟩ := List.mem_map.mp hkey
    exact List.mem_map_of_mem (List.mem_filter.mp hrow).1
  rw [receive, (view_foldl_setBare _ _ _ fun key hk => holds_written st page key (hbare key hk)).1,
    view_replaceRefs, view_foldl (fun st row => view_upsertMessage row),
    view_foldl (fun st key => view_deleteDerivedRows key), View.received, View.written]

theorem holds_receive (st : Sqlite) (page : Page) : (st.receive page).Holds page.scope (page.rows.map MailRow.key) := by
  have hbare : ∀ key ∈ page.bare.map MailRow.key, key ∈ page.rows.map MailRow.key := by
    intro key hkey
    obtain ⟨row, hrow, rfl⟩ := List.mem_map.mp hkey
    exact List.mem_map_of_mem (List.mem_filter.mp hrow).1
  intro key hkey
  rw [receive, (view_foldl_setBare _ _ _ fun key hk => holds_written st page key (hbare key hk)).2]
  exact holds_written st page key hkey

/-! ## Assigning the components -/

section Assign

variable {scope : SyncScope} {byKey : ByKey}

theorem assignComponent_cases (scope : SyncScope) (account : AccountId) (byKey : ByKey)
    (st : Sqlite) (component : List MailRow) :
    st.assignComponent scope account byKey component = st ∨ ∃ threads t,
      st.assignComponent scope account byKey component = (component.map MailRow.key).foldl (setThread scope t)
          (if threads.isEmpty then st else st.rekey account threads t) := by
  rw [assignComponent]
  dsimp only
  split
  · exact Or.inl rfl
  · exact Or.inr ⟨_, _, rfl⟩

theorem holds_assignComponent (st : Sqlite) (component : List MailRow) (r : Row) (h : ∃ m, st.message.get? r = some m) :
    ∃ m, (st.assignComponent scope account byKey component).message.get? r = some m := by
  have hfold : ∀ (keys : List Text) (t : Text) (st : Sqlite), (∃ m, st.message.get? r = some m) →
      ∃ m, (keys.foldl (setThread scope t) st).message.get? r = some m := by
    intro keys t
    induction keys with
    | nil => exact fun _ h => h
    | cons key rest ih => exact fun st h => ih _ ((holds_setThread r).mpr h)
  rcases assignComponent_cases scope account byKey st component with heq | ⟨threads, t, heq⟩
  · rw [heq]
    exact h
  · rw [heq]
    refine hfold _ t _ ?_
    split
    · exact h
    · obtain ⟨m, hm⟩ := h
      rw [rekey, Keyed.get?_mapRows, hm]
      exact ⟨_, rfl⟩

theorem OneAccount.assignComponent (h : st.OneAccount account) (component : List MailRow) :
    (st.assignComponent scope account byKey component).OneAccount account := by
  rcases assignComponent_cases scope account byKey st component with heq | ⟨threads, t, heq⟩
  · rw [heq]
    exact h
  · rw [heq]
    refine OneAccount.foldl (fun st key h => h.setThread t key) _ _ ?_
    split
    · exact h
    · exact h.rekey threads t

theorem view_foldl_assign (comps : List (List MailRow)) (st : Sqlite) (h : st.OneAccount account)
    (hne : ∀ c ∈ comps, c ≠ []) (hr : ∀ c ∈ comps, st.view.Reflects scope byKey (c.map MailRow.key))
    (hs : ∀ c ∈ comps, st.Holds scope (c.map MailRow.key)) :
    Assigns st.view (comps.map (rowsOf scope)) (comps.foldl (assignComponent scope account byKey) st).view := by
  induction comps generalizing st with
  | nil => exact .nil _
  | cons c rest ih =>
    obtain ⟨t, hname, hview⟩ := view_assignComponent h (hr c List.mem_cons_self)
      (hs c List.mem_cons_self) (hne c List.mem_cons_self)
    refine .cons hname ?_
    rw [← hview]
    refine ih _ (h.assignComponent c) (fun c hc => hne c (List.mem_cons_of_mem _ hc)) ?_ ?_
    · intro c' hc' key hkey id
      rw [hview]
      exact hr c' (List.mem_cons_of_mem _ hc') key hkey id
    · intro c' hc' key hkey
      exact holds_assignComponent st c _ (hs c' (List.mem_cons_of_mem _ hc') key hkey)

end Assign

theorem applyPage_view (h : st.OneAccount page.scope.account) :
    Assigns (st.view.received page) ((order.arrange page.components).map (rowsOf page.scope))
      (st.applyPage order page).view := by
  have hmem : ∀ c ∈ order.arrange page.components, c ∈ page.components := fun c hc => (order.perm _).mem_iff.mp hc
  rw [applyPage_eq, ← view_receive]
  refine view_foldl_assign _ _ (oneAccount_receive h) ?_ ?_ ?_
  · rintro c hc rfl
    obtain ⟨first, hfirst, -⟩ := components_connected (hmem _ hc)
    exact absurd hfirst List.not_mem_nil
  · intro c hc
    rw [view_receive]
    exact View.reflects_received fun key hkey => (Page.graphed_keys (hmem c hc) hkey).1
  · intro c hc key hkey
    exact holds_receive st page key (Page.graphed_keys (hmem c hc) hkey).2

theorem oneAccount_applyPage (h : st.OneAccount page.scope.account) :
    (st.applyPage order page).OneAccount page.scope.account := by
  rw [applyPage_eq]
  exact OneAccount.foldl (fun st c h => h.assignComponent c) _ _ (oneAccount_receive h)

end Sqlite
end Threading
end SyncEngine
