import SyncEngine.Threading.View

/-!
# What the durable store's threading steps do to its view

One lemma for each statement the store runs, and from them what taking a page in and
assigning one component amount to.
-/

namespace SyncEngine
namespace Threading
namespace Sqlite

open Keyed

def view (st : Sqlite) : View where
  thread r := (st.message.get? r).bind MessageRow.threadId
  touches r id := ∃ ref, st.msgidRef.get? (r, id) = some ref
  owns r id := ∃ ref, st.msgidRef.get? (r, id) = some ref ∧ ref.owned = true

/-- Every row of the two tables belongs to the account. -/
structure OneAccount (st : Sqlite) (account : AccountId) : Prop where
  message : ∀ r m, st.message.get? r = some m → m.account = account
  msgidRef : ∀ k ref, st.msgidRef.get? k = some ref → ref.account = account

def Holds (st : Sqlite) (scope : SyncScope) (keys : List Text) : Prop :=
  ∀ key ∈ keys, ∃ m, st.message.get? (scope, key) = some m

variable {st : Sqlite} {scope : SyncScope} {account : AccountId}

theorem view_new : new.view = View.empty := View.ext_of (fun _ => rfl) (fun _ _ => by simp [view, View.empty, new])
    fun _ _ => by simp [view, View.empty, new]

theorem oneAccount_new (account : AccountId) : new.OneAccount account :=
  ⟨fun _ _ h => by simp [new] at h, fun _ _ h => by simp [new] at h⟩

/-! ## Removing and upserting -/

theorem view_deleteDerivedRows (key : Text) : (st.deleteDerivedRows scope key).view = st.view.removed scope key := by
  apply View.ext_of
  · intro r
    simp only [view, deleteDerivedRows, View.removed, get?_filterRows]
    by_cases hr : r = (scope, key)
    · cases st.message.get? r <;> simp [hr, Option.filter]
    · cases st.message.get? r <;> simp [hr, Option.filter]
  · intro r id
    simp only [view, deleteDerivedRows, View.removed, get?_filterRows, Option.filter_eq_some_iff]
    simp [and_comm]
  · intro r id
    simp only [view, deleteDerivedRows, View.removed, get?_filterRows, Option.filter_eq_some_iff, decide_eq_true_eq]
    constructor
    · rintro ⟨ref, ⟨hget, hne⟩, hown⟩
      exact ⟨hne, ref, hget, hown⟩
    · rintro ⟨hne, ref, hget, hown⟩
      exact ⟨ref, ⟨hget, hne⟩, hown⟩

theorem OneAccount.deleteDerivedRows (h : st.OneAccount account) (key : Text) :
    (st.deleteDerivedRows scope key).OneAccount account where
  message r m hm := by
    rw [Sqlite.deleteDerivedRows, get?_filterRows, Option.filter_eq_some_iff] at hm
    exact h.message r m hm.1
  msgidRef k ref hk := by
    rw [Sqlite.deleteDerivedRows, get?_filterRows, Option.filter_eq_some_iff] at hk
    exact h.msgidRef k ref hk.1

theorem view_upsertMessage (row : MailRow) : (st.upsertMessage scope account row).view = st.view.upserted scope row := by
  apply View.ext_of
  · intro r
    simp only [view, upsertMessage, View.upserted, get?_put]
    by_cases hr : r = (scope, row.key)
    · simp [hr]
    · simp [hr]
  · exact fun _ _ => Iff.rfl
  · exact fun _ _ => Iff.rfl

theorem OneAccount.upsertMessage (h : st.OneAccount account) (row : MailRow) :
    (st.upsertMessage scope account row).OneAccount account where
  message r m hm := by
    rw [Sqlite.upsertMessage, get?_put] at hm
    by_cases hr : r = (scope, row.key)
    · rw [if_pos hr, Option.some.injEq] at hm
      rw [← hm]
    · rw [if_neg hr] at hm
      exact h.message r m hm
  msgidRef := h.msgidRef

theorem upsertMessage_holds (row : MailRow) (r : Row) : (∃ m, st.message.get? r = some m) ∨
    r = (scope, row.key) → ∃ m, (st.upsertMessage scope account row).message.get? r = some m := by
  intro h
  rw [upsertMessage, get?_put]
  by_cases hr : r = (scope, row.key)
  · rw [if_pos hr]
    exact ⟨_, rfl⟩
  · rw [if_neg hr]
    exact h.resolve_right hr

/-! ## Replacing graph rows -/

variable (keys : List Text)

theorem message_foldl_deleteRefs (st : Sqlite) : (keys.foldl (deleteRefs scope) st).message = st.message := by
  induction keys generalizing st with
  | nil => rfl
  | cons key rest ih => exact ih (st.deleteRefs scope key)

theorem get?_foldl_deleteRefs (st : Sqlite) (r : Row) (id : Text)
    (ref : RefRow) : (keys.foldl (deleteRefs scope) st).msgidRef.get? (r, id) = some ref ↔
      ¬ (r.1 = scope ∧ r.2 ∈ keys) ∧ st.msgidRef.get? (r, id) = some ref := by
  induction keys generalizing st with
  | nil => simp
  | cons key rest ih =>
    rw [List.foldl_cons, ih, deleteRefs, get?_filterRows, Option.filter_eq_some_iff, decide_eq_true_eq, List.mem_cons]
    have hkey : r = (scope, key) ↔ r.1 = scope ∧ r.2 = key := Prod.ext_iff
    show _ ∧ _ ∧ r ≠ (scope, key) ↔ _
    rw [ne_eq, hkey]
    tauto

variable (row : MailRefRow)

theorem touches_insertRef (r : Row) (id : Text) :
    (∃ ref, (st.insertRef scope account row).msgidRef.get? (r, id) = some ref) ↔
      (∃ ref, st.msgidRef.get? (r, id) = some ref) ∨ r = (scope, row.key) ∧ row.msgid = id := by
  rw [insertRef, get?_put]
  by_cases h : (r, id) = ((scope, row.key), row.msgid)
  · rw [if_pos h]
    obtain ⟨hr, hid⟩ := Prod.mk.inj h
    simp [hr, hid]
  · rw [if_neg h]
    have hno : ¬ (r = (scope, row.key) ∧ row.msgid = id) := fun hsame => h (by rw [hsame.1, hsame.2])
    simp [hno]

theorem owns_insertRef (r : Row) (id : Text) :
    (∃ ref, (st.insertRef scope account row).msgidRef.get? (r, id) = some ref ∧ ref.owned = true) ↔
      (∃ ref, st.msgidRef.get? (r, id) = some ref ∧ ref.owned = true) ∨
        r = (scope, row.key) ∧ row.msgid = id ∧ row.owned = true := by
  rw [insertRef, get?_put]
  by_cases h : (r, id) = ((scope, row.key), row.msgid)
  · rw [if_pos h]
    obtain ⟨hr, hid⟩ := Prod.mk.inj h
    subst hr hid
    cases st.msgidRef.get? ((scope, row.key), row.msgid) with
    | some stored => simp
    | none => simp
  · rw [if_neg h]
    have hno : ¬ (r = (scope, row.key) ∧ row.msgid = id ∧ row.owned = true) := fun ⟨h₁, h₂, _⟩ => h (by rw [h₁, h₂])
    simp [hno]

variable (rows : List MailRefRow)

theorem touches_foldl_insertRef (st : Sqlite) (r : Row) (id : Text) :
    (∃ ref, (rows.foldl (insertRef scope account) st).msgidRef.get? (r, id) = some ref) ↔
      (∃ ref, st.msgidRef.get? (r, id) = some ref) ∨ ∃ row ∈ rows, r = (scope, row.key) ∧ row.msgid = id := by
  induction rows generalizing st with
  | nil => simp
  | cons row rest ih =>
    rw [List.foldl_cons, ih, touches_insertRef, List.exists_mem_cons_iff, or_assoc]

theorem owns_foldl_insertRef (st : Sqlite) (r : Row) (id : Text) :
    (∃ ref, (rows.foldl (insertRef scope account) st).msgidRef.get? (r, id) = some ref ∧ ref.owned = true) ↔
      (∃ ref, st.msgidRef.get? (r, id) = some ref ∧ ref.owned = true) ∨
        ∃ row ∈ rows, r = (scope, row.key) ∧ row.msgid = id ∧ row.owned = true := by
  induction rows generalizing st with
  | nil => simp
  | cons row rest ih =>
    rw [List.foldl_cons, ih, owns_insertRef, List.exists_mem_cons_iff, or_assoc]

theorem message_foldl_insertRef (st : Sqlite) : (rows.foldl (insertRef scope account) st).message = st.message := by
  induction rows generalizing st with
  | nil => rfl
  | cons row rest ih => exact ih (st.insertRef scope account row)

theorem message_replaceRefs : (st.replaceRefs scope account rows).message = st.message := by
  rw [replaceRefs, message_foldl_insertRef, message_foldl_deleteRefs]

theorem view_replaceRefs : (st.replaceRefs scope account rows).view = st.view.referenced scope rows := by
  -- a graph row names the message of its key, so a message no row names is not replaced
  have hnamed : ∀ (r : Row) (P : MailRefRow → Prop), ¬ (r.1 = scope ∧ r.2 ∈ rows.map MailRefRow.key) →
      ¬ ∃ row ∈ rows, r = (scope, row.key) ∧ P row := by
    rintro r P hno ⟨row, hrow, heq, -⟩
    exact hno ⟨by rw [heq], by rw [heq]; exact List.mem_map_of_mem hrow⟩
  have hscope : ∀ (r : Row) (P : MailRefRow → Prop), r.1 = scope →
      ((∃ row ∈ rows, r = (scope, row.key) ∧ P row) ↔ ∃ row ∈ rows, row.key = r.2 ∧ P row) := by
    rintro ⟨s, k⟩ P rfl
    simp only [Prod.mk.injEq, true_and, eq_comm]
  apply View.ext_of
  · intro r
    simp only [view, message_replaceRefs, View.referenced]
  · intro r id
    simp only [view, replaceRefs, touches_foldl_insertRef, View.referenced]
    by_cases h : r.1 = scope ∧ r.2 ∈ rows.map MailRefRow.key
    · simp only [get?_foldl_deleteRefs, List.mem_dedup, h, and_self, not_true_eq_false, false_and,
        exists_false, false_or, if_true, hscope r _ h.1]
    · simp only [get?_foldl_deleteRefs, List.mem_dedup, h, not_false_eq_true, true_and, if_false, hnamed r _ h, or_false]
  · intro r id
    simp only [view, replaceRefs, owns_foldl_insertRef, View.referenced]
    by_cases h : r.1 = scope ∧ r.2 ∈ rows.map MailRefRow.key
    · simp only [get?_foldl_deleteRefs, List.mem_dedup, h, and_self, not_true_eq_false, false_and,
        exists_false, false_or, if_true, hscope r _ h.1]
    · simp only [get?_foldl_deleteRefs, List.mem_dedup, h, not_false_eq_true, true_and, if_false, hnamed r _ h, or_false]

theorem OneAccount.replaceRefs (h : st.OneAccount account) (rows : List MailRefRow) :
    (st.replaceRefs scope account rows).OneAccount account where
  message r m hm := by
    rw [message_replaceRefs] at hm
    exact h.message r m hm
  msgidRef := by
    have hinsert : ∀ (rows : List MailRefRow) (st : Sqlite),
        (∀ k ref, st.msgidRef.get? k = some ref → ref.account = account) →
        ∀ k ref, (rows.foldl (insertRef scope account) st).msgidRef.get? k = some ref → ref.account = account := by
      intro rows
      induction rows with
      | nil => exact fun _ h => h
      | cons row rest ih =>
        intro st h
        refine ih _ ?_
        intro k ref hk
        rw [insertRef, get?_put] at hk
        by_cases hkey : k = ((scope, row.key), row.msgid)
        · rw [if_pos hkey, Option.some.injEq] at hk
          rw [← hk]
          cases hs : st.msgidRef.get? ((scope, row.key), row.msgid) with
          | some stored => exact h _ stored hs
          | none => rfl
        · rw [if_neg hkey] at hk
          exact h k ref hk
    refine hinsert rows _ ?_
    rintro ⟨r, id⟩ ref hk
    exact h.msgidRef _ ref ((get?_foldl_deleteRefs _ _ _ _ _).mp hk).2

/-! ## Writing threads -/

section Threads

variable {key : Text} {t : Text}

theorem view_setBare (h : ∃ m, st.message.get? (scope, key) = some m) :
    (st.setBare scope key).view = st.view.bared scope key := by
  obtain ⟨m, hm⟩ := h
  refine View.ext_of ?_ (fun _ _ => Iff.rfl) fun _ _ => Iff.rfl
  intro r
  simp only [view, setBare, View.bared, get?_modify]
  by_cases hr : r = (scope, key)
  · subst hr
    cases ht : m.threadId with
    | none => simp [hm, ht]
    | some t => simp [hm, ht]
  · simp [hr]

theorem view_setThread (h : ∃ m, st.message.get? (scope, key) = some m) (r : Row) :
    (st.setThread scope t key).view.thread r =
      if r = (scope, key) then some t else st.view.thread r := by
  obtain ⟨m, hm⟩ := h
  simp only [view, setThread, get?_modify]
  by_cases hr : r = (scope, key)
  · simp [hr, hm]
  · simp [hr]

theorem holds_setBare (r : Row) : (∃ m, (st.setBare scope key).message.get? r = some m) ↔
    ∃ m, st.message.get? r = some m := by
  rw [setBare, get?_modify]
  by_cases hr : r = (scope, key)
  · simp [hr]
  · simp [hr]

theorem holds_setThread (r : Row) : (∃ m, (st.setThread scope t key).message.get? r = some m) ↔
    ∃ m, st.message.get? r = some m := by
  rw [setThread, get?_modify]
  by_cases hr : r = (scope, key)
  · simp [hr]
  · simp [hr]

theorem OneAccount.setBare (h : st.OneAccount account) (key : Text) : (st.setBare scope key).OneAccount account where
  message r m hm := by
    rw [Sqlite.setBare, get?_modify] at hm
    by_cases hr : r = (scope, key)
    · rw [if_pos hr, Option.map_eq_some_iff] at hm
      obtain ⟨m', hm', rfl⟩ := hm
      by_cases hn : m'.threadId = none
      · rw [if_pos hn]
        exact h.message r m' hm'
      · rw [if_neg hn]
        exact h.message r m' hm'
    · rw [if_neg hr] at hm
      exact h.message r m hm
  msgidRef := h.msgidRef

theorem OneAccount.setThread (h : st.OneAccount account) (t key : Text) :
    (st.setThread scope t key).OneAccount account where
  message r m hm := by
    rw [Sqlite.setThread, get?_modify] at hm
    by_cases hr : r = (scope, key)
    · rw [if_pos hr, Option.map_eq_some_iff] at hm
      obtain ⟨m', hm', rfl⟩ := hm
      exact h.message r m' hm'
    · rw [if_neg hr] at hm
      exact h.message r m hm
  msgidRef := h.msgidRef

theorem OneAccount.rekey (h : st.OneAccount account) (threads : List Text) (t : Text) :
    (st.rekey account threads t).OneAccount account where
  message r m hm := by
    rw [Sqlite.rekey, get?_mapRows, Option.map_eq_some_iff] at hm
    obtain ⟨m', hm', rfl⟩ := hm
    have hacc := h.message r m' hm'
    split
    · exact hacc
    · exact hacc
  msgidRef := h.msgidRef

variable {r : Row}

theorem inThreads_iff (h : st.OneAccount account) {m : MessageRow}
    (hm : st.message.get? r = some m) {threads : List Text} :
    inThreads account threads m = true ↔ r ∈ st.view.under {t | t ∈ threads} := by
  have hthread : st.view.thread r = m.threadId := by
    show (st.message.get? r).bind MessageRow.threadId = _
    rw [hm]
    rfl
  show _ ↔ ∃ t ∈ threads, st.view.thread r = some t
  rw [inThreads, h.message r m hm, hthread, decide_eq_true rfl, Bool.true_and, Option.any_eq_true]
  constructor
  · rintro ⟨t, ht, hin⟩
    exact ⟨t, of_decide_eq_true hin, ht⟩
  · rintro ⟨t, hin, ht⟩
    exact ⟨t, ht, decide_eq_true hin⟩

theorem get?_of_thread (h : st.view.thread r = some t) : ∃ m, st.message.get? r = some m ∧ m.threadId = some t :=
  Option.bind_eq_some_iff.mp h

theorem exists_of_under {threads : Set Text} (h : r ∈ st.view.under threads) : ∃ m, st.message.get? r = some m := by
  obtain ⟨t, -, ht⟩ := h
  obtain ⟨m, hm, -⟩ := get?_of_thread ht
  exact ⟨m, hm⟩

theorem view_rekey (h : st.OneAccount account) (threads : List Text) (r : Row) :
    (r ∈ st.view.graphed ∩ st.view.under {t | t ∈ threads} → (st.rekey account threads t).view.thread r = some t) ∧
    (r ∉ st.view.graphed ∩ st.view.under {t | t ∈ threads} →
      (st.rekey account threads t).view.thread r = st.view.thread r) := by
  have hgraphed : (st.msgidRef.keys.any fun k => k.1 = r) = true ↔ r ∈ st.view.graphed := by
    show _ ↔ ∃ id, ∃ ref, st.msgidRef.get? (r, id) = some ref
    simp only [List.any_eq_true, decide_eq_true_eq, mem_keys_iff]
    constructor
    · rintro ⟨⟨r', id⟩, ⟨ref, href⟩, rfl⟩
      exact ⟨id, ref, href⟩
    · rintro ⟨id, ref, href⟩
      exact ⟨(r, id), ⟨ref, href⟩, rfl⟩
  cases hm : st.message.get? r with
  | none =>
    constructor
    · rintro ⟨-, hunder⟩
      obtain ⟨m, hm'⟩ := exists_of_under hunder
      rw [hm] at hm'
      simp at hm'
    · intro _
      simp [view, rekey, hm]
  | some m =>
    have hcond : (inThreads account threads m && st.msgidRef.keys.any fun k => k.1 = r) = true ↔
        r ∈ st.view.graphed ∩ st.view.under {t | t ∈ threads} := by
      rw [Bool.and_eq_true, inThreads_iff h hm, hgraphed, Set.mem_inter_iff, and_comm]
    constructor
    · intro hin
      simp only [view, rekey, get?_mapRows, hm, Option.map_some, Option.bind_some]
      rw [if_pos (hcond.mpr hin)]
    · intro hout
      simp only [view, rekey, get?_mapRows, hm, Option.map_some, Option.bind_some]
      rw [if_neg (fun hc => hout (hcond.mp hc))]

end Threads

/-! ## Reading threads -/

section Queries

variable {threads ids : List Text} {t x : Text}

theorem mem_threadsTouching (h : st.OneAccount account) : t ∈ st.threadsTouching account ids ↔
    ∃ r, st.view.thread r = some t ∧ ∃ id ∈ ids, st.view.touches r id := by
  simp only [threadsTouching, List.mem_dedup, List.mem_filterMap]
  constructor
  · rintro ⟨⟨⟨r, id⟩, ref⟩, hrow, hval⟩
    by_cases hc : ref.account = account ∧ id ∈ ids
    · rw [if_pos hc] at hval
      exact ⟨r, hval, id, hc.2, ref, (get?_eq_some_iff _).mpr hrow⟩
    · rw [if_neg hc] at hval
      simp at hval
  · rintro ⟨r, hval, id, hid, ref, href⟩
    refine ⟨((r, id), ref), (get?_eq_some_iff _).mp href, ?_⟩
    rw [if_pos ⟨h.msgidRef _ _ href, hid⟩]
    exact hval

theorem ownedInThreads_eq (h : st.OneAccount account) (threads : List Text) :
    ∃ owned : List Text, st.ownedInThreads account threads = owned.min? ∧
      ∀ id, id ∈ owned ↔ ∃ r ∈ st.view.under {t | t ∈ threads}, st.view.owns r id := by
  refine ⟨_, rfl, ?_⟩
  intro x
  simp only [List.mem_filterMap]
  constructor
  · rintro ⟨⟨⟨r, id⟩, ref⟩, hrow, hval⟩
    by_cases hc : (ref.owned && (st.message.get? r).any (inThreads account threads)) = true
    · rw [if_pos hc, Option.some.injEq] at hval
      rw [Bool.and_eq_true, Option.any_eq_true] at hc
      obtain ⟨hown, m, hm, hin⟩ := hc
      have hrow' := (get?_eq_some_iff _).mpr hrow
      exact ⟨r, (inThreads_iff h hm).mp hin, ref, hval ▸ hrow', hown⟩
    · rw [if_neg hc] at hval
      simp at hval
  · rintro ⟨r, hunder, ref, href, hown⟩
    obtain ⟨m, hm⟩ := exists_of_under hunder
    refine ⟨((r, x), ref), (get?_eq_some_iff _).mp href, ?_⟩
    rw [if_pos]
    rw [Bool.and_eq_true, Option.any_eq_true]
    exact ⟨hown, m, hm, (inThreads_iff h hm).mpr hunder⟩

theorem keyInThreads_eq (h : st.OneAccount account) (threads : List Text) :
    ∃ keys : List Text, st.keyInThreads account threads = keys.min? ∧
      ∀ key, key ∈ keys ↔ ∃ r ∈ st.view.under {t | t ∈ threads}, r.2 = key := by
  refine ⟨_, rfl, ?_⟩
  intro x
  simp only [List.mem_filterMap]
  constructor
  · rintro ⟨⟨r, m⟩, hrow, hval⟩
    by_cases hc : inThreads account threads m = true
    · rw [if_pos hc, Option.some.injEq] at hval
      have hm := (get?_eq_some_iff _).mpr hrow
      exact ⟨r, (inThreads_iff h hm).mp hc, hval⟩
    · rw [if_neg hc] at hval
      simp at hval
  · rintro ⟨r, hunder, hx⟩
    obtain ⟨m, hm⟩ := exists_of_under hunder
    refine ⟨(r, m), (get?_eq_some_iff _).mp hm, ?_⟩
    rw [if_pos ((inThreads_iff h hm).mpr hunder), hx]

end Queries

/-! ## Assigning a component -/

theorem smaller_min? (a b : List Text) : smaller a.min? b.min? = (a ++ b).min? := by
  cases hb : b.min? with
  | none =>
    rw [List.min?_eq_none_iff] at hb
    rw [hb, List.append_nil]
    cases a.min? <;> rfl
  | some y =>
    cases ha : a.min? with
    | none =>
      rw [List.min?_eq_none_iff] at ha
      rw [ha, List.nil_append, hb]
      rfl
    | some x =>
      symm
      rw [List.min?_eq_some_iff] at ha hb
      rw [smaller, List.min?_eq_some_iff]
      constructor
      · rcases min_choice x y with h | h
        · rw [h]
          exact List.mem_append_left _ ha.1
        · rw [h]
          exact List.mem_append_right _ hb.1
      · intro z hz
        rcases List.mem_append.mp hz with hz | hz
        · exact le_trans (min_le_left x y) (ha.2 z hz)
        · exact le_trans (min_le_right x y) (hb.2 z hz)

section Assign

variable {byKey : ByKey} {component : List MailRow} {t : Text}

theorem mem_reached (h : st.OneAccount account) (hr : st.view.Reflects scope byKey (component.map MailRow.key)) :
    t ∈ st.threadsTouching account (byKey.touched component).dedup ↔ t ∈ st.view.reached (rowsOf scope component) := by
  rw [mem_threadsTouching h]
  constructor
  · rintro ⟨r, ht, id, hid, htouch⟩
    obtain ⟨b, hb, hbid⟩ := (View.mem_touched hr).mp (List.mem_dedup.mp hid)
    exact ⟨r, ht, b, hb, id, htouch, hbid⟩
  · rintro ⟨r, ht, b, hb, id, htouch, hbid⟩
    exact ⟨r, ht, id, List.mem_dedup.mpr ((View.mem_touched hr).mpr ⟨b, hb, hbid⟩), htouch⟩

theorem merged_candidates (threads own : List Text) {found : Option Text} {stored : List Text}
    (hfound : found = stored.min?) (hempty : threads = [] → stored = []) :
    (if threads.isEmpty then own.min? else smaller own.min? found) = (own ++ stored).min? := by
  by_cases h : threads = []
  · rw [hempty h, List.append_nil, h]
    rfl
  · rw [if_neg (by simpa using h), hfound, smaller_min?]

theorem view_foldl_setThread (keys : List Text) (st : Sqlite) (hs : st.Holds scope keys) :
    (∀ r, (keys.foldl (setThread scope t) st).view.thread r =
      if r.1 = scope ∧ r.2 ∈ keys then some t else st.view.thread r) ∧
    (keys.foldl (setThread scope t) st).msgidRef = st.msgidRef := by
  induction keys generalizing st with
  | nil => simp
  | cons key rest ih =>
    have hrest : (st.setThread scope t key).Holds scope rest := by
      intro k hk
      exact (holds_setThread _).mpr (hs k (List.mem_cons_of_mem _ hk))
    obtain ⟨hthread, href⟩ := ih (st.setThread scope t key) hrest
    refine ⟨?_, href⟩
    intro r
    rw [List.foldl_cons, hthread, view_setThread (hs key List.mem_cons_self)]
    by_cases h : r.1 = scope ∧ r.2 ∈ rest
    · rw [if_pos h, if_pos ⟨h.1, List.mem_cons_of_mem _ h.2⟩]
    · rw [if_neg h]
      have hkey : r = (scope, key) ↔ r.1 = scope ∧ r.2 = key := Prod.ext_iff
      by_cases heq : r = (scope, key)
      · rw [if_pos heq, if_pos ⟨(hkey.mp heq).1, List.mem_cons.mpr (Or.inl (hkey.mp heq).2)⟩]
      · rw [if_neg heq, if_neg]
        rintro ⟨h₁, h₂⟩
        rcases List.mem_cons.mp h₂ with h₂ | h₂
        · exact heq (hkey.mpr ⟨h₁, h₂⟩)
        · exact h ⟨h₁, h₂⟩

/-- Moving what is graphed under the threads and then the component itself is the
assignment. -/
theorem view_putOn (h : st.OneAccount account) (hs : st.Holds scope (component.map MailRow.key)) {threads : List Text}
    (hreached : {t | t ∈ threads} = st.view.reached (rowsOf scope component)) {st' : Sqlite}
    (hst : st' = (component.map MailRow.key).foldl (setThread scope t)
      (if threads.isEmpty then st else st.rekey account threads t)) :
    st'.view = st.view.assigned (rowsOf scope component) t := by
  subst hst
  have hrekey : ∀ r, (if threads.isEmpty then st else st.rekey account threads t).view.thread r =
      if threads.isEmpty then st.view.thread r else (st.rekey account threads t).view.thread r := by
    intro r
    split <;> rfl
  have hholds : (if threads.isEmpty then st else st.rekey account threads t).Holds scope
      (component.map MailRow.key) := by
    intro key hkey
    obtain ⟨m, hm⟩ := hs key hkey
    split
    · exact ⟨m, hm⟩
    · rw [rekey, get?_mapRows, hm]
      exact ⟨_, rfl⟩
  have hrefs : (if threads.isEmpty then st else st.rekey account threads t).msgidRef =
      st.msgidRef := by
    split <;> rfl
  obtain ⟨hthread, href⟩ := view_foldl_setThread (t := t) (component.map MailRow.key) _ hholds
  rw [hrefs] at href
  apply View.ext_of
  · intro r
    rw [hthread]
    by_cases hb : r ∈ rowsOf scope component
    · rw [if_pos (mem_rowsOf.mp hb), View.assigned_of_mem (Or.inl hb)]
    · rw [if_neg (fun hc => hb (mem_rowsOf.mpr hc)), hrekey]
      have hmoved : r ∈ st.view.moved (rowsOf scope component) ↔
          r ∈ st.view.graphed ∩ st.view.under {t | t ∈ threads} := by
        rw [hreached]
        exact or_iff_right hb
      obtain ⟨hin, hout⟩ := view_rekey (t := t) h threads r
      by_cases hm : r ∈ st.view.moved (rowsOf scope component)
      · have hnil : threads.isEmpty = false := by
          obtain ⟨-, t', ht', -⟩ := hmoved.mp hm
          cases threads with
          | nil => simp at ht'
          | cons _ _ => rfl
        rw [View.assigned_of_mem hm, hnil]
        exact hin (hmoved.mp hm)
      · rw [View.assigned_of_not_mem hm]
        split
        · rfl
        · exact hout fun hc => hm (hmoved.mpr hc)
  · intro r id
    show (∃ ref, _ = some ref) ↔ _
    rw [href]
    exact Iff.rfl
  · intro r id
    show (∃ ref : RefRow, _ = some ref ∧ ref.owned = true) ↔ _
    rw [href]
    exact Iff.rfl

/-- A component with a row is put, with every graphed row under the threads it reaches, on
the name of itself and of all that stands under those threads. -/
theorem view_assignComponent (h : st.OneAccount account) (hr : st.view.Reflects scope byKey (component.map MailRow.key))
    (hs : st.Holds scope (component.map MailRow.key)) (hne : component ≠ []) :
    ∃ t, IsName st.view.owns Prod.snd
        (rowsOf scope component ∪ st.view.under (st.view.reached (rowsOf scope component))) t ∧
      (st.assignComponent scope account byKey component).view = st.view.assigned (rowsOf scope component) t := by
  have hreached : {t | t ∈ st.threadsTouching account (byKey.touched component).dedup} =
      st.view.reached (rowsOf scope component) := Set.ext fun t => mem_reached h hr
  obtain ⟨owned, howned, hmemo⟩ := ownedInThreads_eq h (st.threadsTouching account (byKey.touched component).dedup)
  obtain ⟨keys, hkeys, hmemk⟩ := keyInThreads_eq h (st.threadsTouching account (byKey.touched component).dedup)
  rw [hreached] at hmemo hmemk
  have hnothing : st.threadsTouching account (byKey.touched component).dedup = [] →
      st.view.under (st.view.reached (rowsOf scope component)) = ∅ := by
    intro hnil
    rw [← hreached, hnil]
    ext r
    simp [View.under]
  have hownedEq := merged_candidates _ (byKey.owned component) howned fun hnil => by
    rw [List.eq_nil_iff_forall_not_mem]
    intro id hid
    obtain ⟨r, hr', -⟩ := (hmemo id).mp hid
    rw [hnothing hnil] at hr'
    exact hr'
  have hkeysEq := merged_candidates _ (component.map MailRow.key) hkeys fun hnil => by
    rw [List.eq_nil_iff_forall_not_mem]
    intro id hid
    obtain ⟨r, hr', -⟩ := (hmemk id).mp hid
    rw [hnothing hnil] at hr'
    exact hr'
  have hsome : ∃ t, (byKey.owned component ++ owned).min?.or (component.map MailRow.key ++ keys).min? = some t := by
    cases (byKey.owned component ++ owned).min? with
    | some t => exact ⟨t, rfl⟩
    | none =>
      cases hk : (component.map MailRow.key ++ keys).min? with
      | some t => exact ⟨t, rfl⟩
      | none =>
        rw [List.min?_eq_none_iff, List.append_eq_nil_iff, List.map_eq_nil_iff] at hk
        exact absurd hk.1 hne
  obtain ⟨t, ht⟩ := hsome
  refine ⟨t, IsName.of_min? ?_ ?_ ht, ?_⟩
  · intro id
    simp only [List.mem_append, View.mem_owned hr, hmemo, Set.mem_union, or_and_right, exists_or]
  · intro key
    simp only [List.mem_append, hmemk, Set.mem_union, or_and_right, exists_or]
    refine or_congr_left ?_
    constructor
    · intro hk
      exact ⟨(scope, key), mem_rowsOf.mpr ⟨rfl, hk⟩, rfl⟩
    · rintro ⟨r, hr', rfl⟩
      exact (mem_rowsOf.mp hr').2
  · exact view_putOn h hs hreached (by rw [assignComponent]; simp only [hownedEq, hkeysEq, ht])

end Assign

end Sqlite
end Threading
end SyncEngine
