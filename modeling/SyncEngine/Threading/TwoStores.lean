import Mathlib
import SyncEngine.Threading.Agreement
import SyncEngine.Threading.Incremental

/-!
# The two stores over whole runs

Pages are applied to both stores, each store taking a page's components in an order of its
own.  A row in the graph is always on a thread, which is what the reference store needs to
leave the messages without ids out.  Rows linked through the ids their messages touch stay
on one thread: a batch takes every thread it reaches along as a whole.
-/

namespace SyncEngine
namespace Threading

open Relation

def Page.batches (page : Page) : List (Set Row) := page.components.map (rowsOf page.scope)

section AtPage

variable {v v' u : View} {page : Page} {r r' : Row} {B : Set Row}

/-! ## The batches of a page -/

theorem Page.mem_batches : B ∈ page.batches ↔ ∃ c ∈ page.components, rowsOf page.scope c = B := List.mem_map

theorem Page.graphed_of_mem_batches (hB : B ∈ page.batches) (hr : r ∈ B) : r ∈ (v.received page).graphed := by
  obtain ⟨c, hc, rfl⟩ := Page.mem_batches.mp hB
  obtain ⟨row, hrow, rfl⟩ := hr
  have hkey := (Page.graphed_keys hc (List.mem_map_of_mem hrow)).1
  obtain ⟨ref, href, hk⟩ := List.mem_map.mp hkey
  exact ⟨ref.msgid, (View.touches_received hkey ref.msgid).1.mpr ⟨ref, href, hk, rfl⟩⟩

theorem Page.components_apart (v : View) (page : Page) :
    page.components.Pairwise fun c c' => ∀ r ∈ rowsOf page.scope c, ∀ r' ∈ rowsOf page.scope c',
      ¬ Shares (v.received page).touches r r' := by
  refine (components_pairwise _ _).imp_of_mem ?_
  rintro c c' hc hc' hno _ ⟨row, hrow, rfl⟩ _ ⟨row', hrow', rfl⟩ ⟨id, hid, hid'⟩
  refine hno row hrow row' hrow' ⟨id, ?_, ?_⟩
  · have hkeys : ∀ key ∈ c.map MailRow.key, key ∈ page.refs.map MailRefRow.key :=
      fun _ hkey => (Page.graphed_keys hc hkey).1
    exact (View.reflects_received hkeys row.key (List.mem_map_of_mem hrow) id).1.mpr hid
  · have hkeys : ∀ key ∈ c'.map MailRow.key, key ∈ page.refs.map MailRefRow.key :=
      fun _ hkey => (Page.graphed_keys hc' hkey).1
    exact (View.reflects_received hkeys row'.key (List.mem_map_of_mem hrow') id).1.mpr hid'

theorem Page.apart (v : View) (page : Page) : Apart (v.received page) page.batches where
  graphed B hB r hr := Page.graphed_of_mem_batches hB hr
  apart B hB B' hB' hne r hr r' hr' := by
    obtain ⟨c, hc, rfl⟩ := Page.mem_batches.mp hB
    obtain ⟨c', hc', rfl⟩ := Page.mem_batches.mp hB'
    have : Std.Symm fun c c' : List MailRow => ∀ r ∈ rowsOf page.scope c,
        ∀ r' ∈ rowsOf page.scope c', ¬ Shares (v.received page).touches r r' :=
      ⟨fun c c' h r hr r' hr' hshare => h r' hr' r hr hshare.symm⟩
    exact (page.components_apart v).forall hc hc' (fun h => hne (h ▸ rfl)) r hr r' hr'

theorem Page.batches_nodup (page : Page) : page.batches.Nodup := by
  rw [Page.batches, List.Nodup, List.pairwise_map]
  refine (page.components_apart View.empty).imp_of_mem ?_
  intro c c' hc hc' hno heq
  obtain ⟨first, hfirst, -⟩ := components_connected hc
  have hin : (page.scope, first.key) ∈ rowsOf page.scope c := ⟨first, hfirst, rfl⟩
  refine hno _ hin _ (heq ▸ hin) (shares_self ?_)
  exact Page.graphed_of_mem_batches (Page.mem_batches.mpr ⟨c, hc, rfl⟩) hin

/-! ## Rows in the graph are on a thread -/

/-- Rows in the graph are on a thread, and a row touches what it owns. -/
structure Whole (v : View) : Prop where
  threaded : ∀ r ∈ v.graphed, v.thread r ≠ none
  owned : ∀ r id, v.owns r id → v.touches r id

theorem whole_empty : Whole View.empty := ⟨fun _ ⟨_, h⟩ => absurd h id, fun _ _ h => absurd h id⟩

theorem touches_cleared (keys : List Text) (v : View) (r : Row) (id : Text) :
    ((keys.foldl (View.removed page.scope) v).touches r id ↔ ¬ (r.1 = page.scope ∧ r.2 ∈ keys) ∧ v.touches r id) ∧
    ((keys.foldl (View.removed page.scope) v).owns r id ↔ ¬ (r.1 = page.scope ∧ r.2 ∈ keys) ∧ v.owns r id) := by
  induction keys generalizing v with
  | nil => simp
  | cons key rest ih =>
    have hkey : r ≠ (page.scope, key) ↔ ¬ (r.1 = page.scope ∧ r.2 = key) := by rw [Ne, Prod.ext_iff]
    have htouch : (v.removed page.scope key).touches r id ↔ r ≠ (page.scope, key) ∧ v.touches r id := Iff.rfl
    have hown : (v.removed page.scope key).owns r id ↔ r ≠ (page.scope, key) ∧ v.owns r id := Iff.rfl
    rw [List.foldl_cons, (ih _).1, (ih _).2, htouch, hown, hkey, List.mem_cons, and_or_left, not_or, and_assoc, and_assoc]
    exact ⟨and_left_comm, and_left_comm⟩

theorem thread_cleared {keys : List Text} (h : ¬ (r.1 = page.scope ∧ r.2 ∈ keys)) (v : View) :
    (keys.foldl (View.removed page.scope) v).thread r = v.thread r := by
  induction keys generalizing v with
  | nil => rfl
  | cons key rest ih =>
    rw [List.foldl_cons, ih fun hr => h ⟨hr.1, List.mem_cons_of_mem _ hr.2⟩]
    show (if r = (page.scope, key) then none else v.thread r) = _
    rw [if_neg]
    rintro rfl
    exact h ⟨rfl, List.mem_cons_self⟩

/-- A row the page names no ids for touches and owns what it did, unless it is removed. -/
theorem touches_received_of_no_refs (h : ¬ (r.1 = page.scope ∧ r.2 ∈ page.refs.map MailRefRow.key)) (id : Text) :
    ((v.received page).touches r id ↔ ¬ (r.1 = page.scope ∧ r.2 ∈ page.removed) ∧ v.touches r id) ∧
    ((v.received page).owns r id ↔ ¬ (r.1 = page.scope ∧ r.2 ∈ page.removed) ∧ v.owns r id) := by
  rw [(View.touches_received_eq v page).1, (View.touches_received_eq v page).2, View.written]
  constructor
  · show (if _ then _ else _) ↔ _
    rw [if_neg h, (View.touches_foldl_upserted _ _ _).1, (touches_cleared _ _ _ _).1]
  · show (if _ then _ else _) ↔ _
    rw [if_neg h, (View.touches_foldl_upserted _ _ _).2, (touches_cleared _ _ _ _).2]

/-- Writing rows never takes a row off its thread, and puts one on the thread it carries. -/
theorem thread_foldl_upserted_ne_none {scope : SyncScope} {rows : List MailRow} (v : View)
    (h : (∃ row ∈ rows, (scope, row.key) = r ∧ row.threadId ≠ none) ∨ v.thread r ≠ none) :
    (rows.foldl (View.upserted scope) v).thread r ≠ none := by
  induction rows generalizing v with
  | nil =>
    rcases h with ⟨row, hrow, -⟩ | h
    · exact absurd hrow List.not_mem_nil
    · exact h
  | cons row rest ih =>
    rw [List.foldl_cons]
    apply ih
    have hone : (v.upserted scope row).thread r =
        if r = (scope, row.key) then row.threadId.or (v.thread r) else v.thread r := rfl
    rcases h with ⟨row', hrow', hr, hsome⟩ | h
    · rcases List.mem_cons.mp hrow' with rfl | hrow'
      · right
        rw [hone, if_pos hr.symm]
        simp [hsome]
      · exact Or.inl ⟨row', hrow', hr, hsome⟩
    · right
      rw [hone]
      by_cases hr : r = (scope, row.key)
      · rw [if_pos hr]
        simp [h]
      · rwa [if_neg hr]

theorem thread_written_eq (v : View) (page : Page) (r : Row) : (v.written page).thread r =
    (page.rows.foldl (View.upserted page.scope) (page.removed.foldl (View.removed page.scope) v)).thread r := rfl

theorem thread_received_eq (v : View) (page : Page) (r : Row) : (v.received page).thread r =
    if (r.1 = page.scope ∧ r.2 ∈ page.bare.map MailRow.key) ∧ (v.written page).thread r = none
      then some r.2 else (v.written page).thread r := View.thread_foldl_bared _ _ _ _

variable {id : Text}

theorem Whole.thread_written (h : Whole v) (hin : ¬ (r.1 = page.scope ∧ r.2 ∈ page.removed) ∧ v.touches r id) :
    (v.written page).thread r ≠ none := by
  rw [thread_written_eq]
  refine thread_foldl_upserted_ne_none _ (Or.inr ?_)
  rw [thread_cleared hin.1]
  exact h.threaded r ⟨id, hin.2⟩

theorem Whole.bare (h : Whole v) (page : Page) : ∀ key ∈ page.bare.map MailRow.key,
    (v.written page).thread (page.scope, key) = none → (page.scope, key) ∉ (v.written page).graphed := by
  rintro key hkey hnone ⟨id, hid⟩
  have hno := (Page.mem_bare.mp hkey).2
  rw [← (View.touches_received_eq v page).1] at hid
  have hin := (touches_received_of_no_refs (r := (page.scope, key)) (fun h => hno h.2) id).1.mp hid
  exact h.thread_written hin hnone

theorem Whole.received (h : Whole v) (hr : r ∈ (v.received page).graphed) :
    (v.received page).thread r ≠ none ∨ ∃ B ∈ page.batches, r ∈ B := by
  have hkeep : (v.written page).thread r ≠ none → (v.received page).thread r ≠ none := by
    intro hne
    rw [thread_received_eq, if_neg fun hc => hne hc.2]
    exact hne
  obtain ⟨id, hid⟩ := hr
  by_cases hrefs : r.1 = page.scope ∧ r.2 ∈ page.refs.map MailRefRow.key
  · obtain ⟨m, hm, hkey, -, -⟩ := Page.mem_refs_keys.mp hrefs.2
    by_cases hnone : m.threadId = none
    · right
      have hrowKey : m.row.key = r.2 := hkey
      have hin : m.row ∈ page.graphed := Page.mem_graphed.mpr ⟨⟨m, hm, rfl⟩, hnone, hrowKey ▸ hrefs.2⟩
      obtain ⟨c, hc, hrow⟩ := components_cover (Keyed.group page.refs MailRefRow.key) hin
      exact ⟨_, Page.mem_batches.mpr ⟨c, hc, rfl⟩, m.row, hrow, Prod.ext hrefs.1 hkey.symm⟩
    · left
      refine hkeep (thread_foldl_upserted_ne_none _ (Or.inl ⟨m.row, ?_, ?_, hnone⟩))
      · exact List.mem_map_of_mem hm
      · exact Prod.ext hrefs.1.symm hkey
  · left
    exact hkeep (h.thread_written ((touches_received_of_no_refs hrefs id).1.mp hid))

theorem Whole.owned_received (h : Whole v) (page : Page) (r : Row) (id : Text)
    (hown : (v.received page).owns r id) : (v.received page).touches r id := by
  by_cases hrefs : r.1 = page.scope ∧ r.2 ∈ page.refs.map MailRefRow.key
  · have hr : r = (page.scope, r.2) := Prod.ext hrefs.1 rfl
    rw [hr] at hown ⊢
    obtain ⟨ref, href, hk, hid, -⟩ := (View.touches_received hrefs.2 id).2.mp hown
    exact (View.touches_received hrefs.2 id).1.mpr ⟨ref, href, hk, hid⟩
  · obtain ⟨hkept, hown⟩ := (touches_received_of_no_refs hrefs id).2.mp hown
    exact (touches_received_of_no_refs hrefs id).1.mpr ⟨hkept, h.owned r id hown⟩

/-! ## What an assignment keeps -/

theorem assigned_ne_none {t : Text} (h : v.thread r ≠ none) : (v.assigned B t).thread r ≠ none := by
  by_cases hr : r ∈ v.moved B
  · rw [View.assigned_of_mem hr]
    exact Option.some_ne_none t
  · rwa [View.assigned_of_not_mem hr]

variable {batches : List (Set Row)}

theorem Assigns.same_ids (h : Assigns u batches v) : v.touches = u.touches ∧ v.owns = u.owns := by
  induction h with
  | nil v => exact ⟨rfl, rfl⟩
  | cons _ _ ih => exact ih

theorem Assigns.thread_ne_none (h : Assigns u batches v)
    (hr : u.thread r ≠ none ∨ ∃ B ∈ batches, r ∈ B) : v.thread r ≠ none := by
  induction h with
  | nil v =>
    rcases hr with hr | ⟨B, hB, -⟩
    · exact hr
    · exact absurd hB List.not_mem_nil
  | cons _ _ ih =>
    apply ih
    rcases hr with hr | ⟨B, hB, hrB⟩
    · exact Or.inl (assigned_ne_none hr)
    · rcases List.mem_cons.mp hB with rfl | hB
      · left
        rw [View.assigned_of_mem (Or.inl hrB)]
        exact Option.some_ne_none _
      · exact Or.inr ⟨B, hB, hrB⟩

theorem Whole.assigns (h : Whole v) (hbatches : ∀ B, B ∈ batches ↔ B ∈ page.batches)
    (ha : Assigns (v.received page) batches v') : Whole v' where
  threaded r hr := by
    rw [View.graphed, ha.same_ids.1] at hr
    refine ha.thread_ne_none ((h.received hr).imp_right ?_)
    rintro ⟨B, hB, hrB⟩
    exact ⟨B, (hbatches B).mpr hB, hrB⟩
  owned r id hown := by
    rw [ha.same_ids.2] at hown
    rw [ha.same_ids.1]
    exact h.owned_received page r id hown

theorem moved_of_same_thread (hr : r ∈ v.graphed) (hr' : r' ∈ v.graphed)
    (hne : v.thread r ≠ none) (heq : v.thread r = v.thread r') (hin : r ∈ v.moved B) :
    r' ∈ v.moved B := by
  obtain ⟨s, hs⟩ := Option.ne_none_iff_exists'.mp hne
  refine Or.inr ⟨hr', s, ?_, heq ▸ hs⟩
  rcases hin with hin | ⟨-, s', hs', heq'⟩
  · exact ⟨r, hs, r, hin, shares_self hr⟩
  · rw [hs, Option.some.injEq] at heq'
    exact heq' ▸ hs'

theorem Assigns.keeps_together (h : Assigns u batches v)
    (hr : r ∈ u.graphed) (hr' : r' ∈ u.graphed) (hne : u.thread r ≠ none)
    (heq : u.thread r = u.thread r') : v.thread r = v.thread r' := by
  induction h with
  | nil v => exact heq
  | cons _ _ ih =>
    rename_i u _ B _ t _ _
    refine ih hr hr' (assigned_ne_none hne) ?_
    by_cases hin : r ∈ u.moved B
    · rw [View.assigned_of_mem hin, View.assigned_of_mem (moved_of_same_thread hr hr' hne heq hin)]
    · have hin' : r' ∉ u.moved B := fun hin' =>
        hin (moved_of_same_thread hr' hr (heq ▸ hne) heq.symm hin')
      rw [View.assigned_of_not_mem hin, View.assigned_of_not_mem hin', heq]

theorem Assigns.brings_together (h : Assigns u batches v) (hB : B ∈ batches) (hr : r ∈ B) (hshare : Shares u.touches r' r)
    (hr' : u.thread r' ≠ none ∨ r' ∈ B) : v.thread r = v.thread r' := by
  induction h with
  | nil v => exact absurd hB List.not_mem_nil
  | cons _ hrest ih =>
    rename_i u _ B' _ t _
    obtain ⟨id, hid', hid⟩ := hshare
    rcases List.mem_cons.mp hB with rfl | hB
    · have hin : r ∈ u.moved B := Or.inl hr
      have hin' : r' ∈ u.moved B := by
        rcases hr' with hne | hr'
        · obtain ⟨s, hs⟩ := Option.ne_none_iff_exists'.mp hne
          exact Or.inr ⟨⟨id, hid'⟩, s, ⟨r', hs, r, hr, id, hid', hid⟩, hs⟩
        · exact Or.inl hr'
      refine hrest.keeps_together ⟨id, hid⟩ ⟨id, hid'⟩ ?_ ?_
      · rw [View.assigned_of_mem hin]
        exact Option.some_ne_none t
      · rw [View.assigned_of_mem hin, View.assigned_of_mem hin']
    · exact ih hB ⟨id, hid', hid⟩ (hr'.imp_left assigned_ne_none)

/-! ## Linked messages -/

def Page.held (page : Page) (before : Row → Option Message) (r : Row) : Option Message :=
  haveI := text_lawful
  if r.1 = page.scope then
    (page.messages.reverse.find? fun m => m.key = r.2).or
      (if r.2 ∈ page.removed then none else before r)
  else before r

/-- Two rows hold messages that come without a thread and have an id in common. -/
def Linked (held : Row → Option Message) (r r' : Row) : Prop :=
  ∃ m m', held r = some m ∧ held r' = some m' ∧ m.thread = none ∧ m'.thread = none ∧
    ∃ id, id ∈ m.touchedIds ∧ id ∈ m'.touchedIds

/-- A view of the messages the rows hold: linked rows are on one thread. -/
structure Threaded (held : Row → Option Message) (v : View) : Prop where
  whole : Whole v
  touches : ∀ r m, held r = some m → m.thread = none → ∀ id ∈ m.touchedIds, v.touches r id
  linked : ∀ r r', Linked held r r' → v.thread r = v.thread r'

variable {before : Row → Option Message} {m : Message}

theorem Page.held_cases (h : page.held before r = some m) : (r.1 = page.scope ∧ m.key = r.2 ∧ m ∈ page.messages) ∨
    before r = some m ∧ ¬ (r.1 = page.scope ∧ r.2 ∈ page.removed) ∧ ∀ m' ∈ page.messages, (page.scope, m'.key) ≠ r := by
  rw [Page.held] at h
  by_cases hscope : r.1 = page.scope
  · rw [if_pos hscope] at h
    cases hfind : page.messages.reverse.find? fun m => m.key = r.2 with
    | some m₀ =>
      rw [hfind, Option.some_or, Option.some.injEq] at h
      subst h
      have hkey : m₀.key = r.2 := by simpa using List.find?_some hfind
      exact Or.inl ⟨hscope, hkey, List.mem_reverse.mp (List.mem_of_find?_eq_some hfind)⟩
    | none =>
      rw [hfind, Option.none_or] at h
      have hno : ∀ m' ∈ page.messages, m'.key ≠ r.2 := by
        intro m' hm'
        simpa using List.find?_eq_none.mp hfind m' (List.mem_reverse.mpr hm')
      by_cases hremoved : r.2 ∈ page.removed
      · rw [if_pos hremoved] at h
        simp at h
      · rw [if_neg hremoved] at h
        exact Or.inr ⟨h, fun hc => hremoved hc.2, fun m' hm' heq => hno m' hm' (heq ▸ rfl)⟩
  · rw [if_neg hscope] at h
    exact Or.inr ⟨h, fun hc => hscope hc.1, fun m' _ heq => hscope (heq ▸ rfl)⟩

theorem received_kept (hremoved : ¬ (r.1 = page.scope ∧ r.2 ∈ page.removed))
    (hno : ∀ m ∈ page.messages, (page.scope, m.key) ≠ r) :
    (v.received page).thread r = v.thread r ∧ ∀ id, (v.received page).touches r id ↔ v.touches r id := by
  have hrow : ∀ row ∈ page.rows, (page.scope, row.key) ≠ r := by
    intro row hrow
    obtain ⟨m, hm, rfl⟩ := Page.exists_of_row hrow
    exact hno m hm
  constructor
  · have hwritten : (v.written page).thread r = v.thread r := by
      rw [thread_written_eq, View.thread_foldl_upserted_none fun row h heq => absurd heq (hrow row h),
        thread_cleared hremoved]
    rw [thread_received_eq, if_neg, hwritten]
    rintro ⟨⟨hscope, hkey⟩, -⟩
    obtain ⟨⟨m, hm, hmk, -⟩, -⟩ := Page.mem_bare.mp hkey
    exact hno m hm (Prod.ext hscope.symm hmk)
  · intro id
    have hrefs : ¬ (r.1 = page.scope ∧ r.2 ∈ page.refs.map MailRefRow.key) := by
      rintro ⟨hscope, hkey⟩
      obtain ⟨m, hm, hmk, -, -⟩ := Page.mem_refs_keys.mp hkey
      exact hno m hm (Prod.ext hscope.symm hmk)
    rw [(touches_received_of_no_refs hrefs id).1]
    exact and_iff_right hremoved

/-- A message of the page that comes without a thread and touches an id: its row does, and is
in a batch. -/
theorem Page.message_batch (hr : r.1 = page.scope) (hkey : m.key = r.2) (hm : m ∈ page.messages)
    (hthread : m.thread = none) (hid : id ∈ m.touchedIds) :
    (v.received page).touches r id ∧ ∃ B ∈ page.batches, r ∈ B := by
  have hd : m.derivable = true := by rw [Message.derivable, hthread]
  have hrefs : m.key ∈ page.refs.map MailRefRow.key := Page.mem_refs_keys.mpr ⟨m, hm, rfl, hd, List.ne_nil_of_mem hid⟩
  have hrow : r = (page.scope, m.key) := Prod.ext hr hkey.symm
  subst hrow
  refine ⟨(View.touches_received hrefs id).1.mpr (Page.mem_refs.mpr ⟨m, hm, rfl, hd, hid⟩), ?_⟩
  have hnone : m.row.threadId = none := by rw [Message.row, Message.threadId, hthread]; rfl
  have hin : m.row ∈ page.graphed := Page.mem_graphed.mpr ⟨⟨m, hm, rfl⟩, hnone, hrefs⟩
  obtain ⟨c, hc, hrow⟩ := components_cover (Keyed.group page.refs MailRefRow.key) hin
  exact ⟨_, Page.mem_batches.mpr ⟨c, hc, rfl⟩, m.row, hrow, rfl⟩

theorem Threaded.touches_received (h : Threaded before v) (hm : page.held before r = some m)
    (hthread : m.thread = none) (hid : id ∈ m.touchedIds) :
    (v.received page).touches r id := by
  rcases Page.held_cases hm with ⟨hscope, hkey, hin⟩ | ⟨hbefore, hremoved, hno⟩
  · exact (Page.message_batch hscope hkey hin hthread hid).1
  · exact ((received_kept hremoved hno).2 id).mpr (h.touches r m hbefore hthread id hid)

theorem Threaded.assigns (h : Threaded before v) (hbatches : ∀ B, B ∈ batches ↔ B ∈ page.batches)
    (ha : Assigns (v.received page) batches v') : Threaded (page.held before) v' where
  whole := h.whole.assigns hbatches ha
  touches r m hm hthread id hid := by
    rw [ha.same_ids.1]
    exact h.touches_received hm hthread hid
  linked r r' hlinked := by
    obtain ⟨m, m', hm, hm', hthread, hthread', id, hid, hid'⟩ := hlinked
    have htouch := h.touches_received hm hthread hid
    have htouch' := h.touches_received hm' hthread' hid'
    rcases Page.held_cases hm with ⟨hscope, hkey, hin⟩ | ⟨hbefore, hremoved, hno⟩
    · obtain ⟨-, B, hB, hr⟩ := Page.message_batch (v := v) hscope hkey hin hthread hid
      refine ha.brings_together ((hbatches B).mpr hB) hr ⟨id, htouch', htouch⟩ ?_
      rcases h.whole.received ⟨id, htouch'⟩ with hne | ⟨B', hB', hr'⟩
      · exact Or.inl hne
      · right
        by_cases hsame : B = B'
        · exact hsame ▸ hr'
        · exact absurd ⟨id, htouch, htouch'⟩ ((page.apart v).apart B hB B' hB' hsame r hr r' hr')
    · have hne : (v.received page).thread r ≠ none := by
        rw [(received_kept hremoved hno).1]
        exact h.whole.threaded r ⟨id, h.touches r m hbefore hthread id hid⟩
      rcases Page.held_cases hm' with ⟨hscope', hkey', hin'⟩ | ⟨hbefore', hremoved', hno'⟩
      · obtain ⟨-, B', hB', hr'⟩ := Page.message_batch (v := v) hscope' hkey' hin' hthread' hid'
        exact (ha.brings_together ((hbatches B').mpr hB') hr' ⟨id, htouch, htouch'⟩ (Or.inl hne)).symm
      · refine ha.keeps_together ⟨id, htouch⟩ ⟨id, htouch'⟩ hne ?_
        rw [(received_kept hremoved hno).1, (received_kept hremoved' hno').1]
        exact h.linked r r' ⟨m, m', hbefore, hbefore', hthread, hthread', id, hid, hid'⟩

end AtPage

/-! ## Runs -/

/-- A page, with the order in which either store happens to come to its components. -/
structure Arrival where
  page : Page
  memOrder : HashOrder (List MailRow)
  sqliteOrder : HashOrder (List MailRow)

def Mem.applyArrivals (st : Mem) (arrivals : List Arrival) : Mem :=
  arrivals.foldl (fun st a => st.applyPage a.memOrder a.page) st

def Sqlite.applyArrivals (st : Sqlite) (arrivals : List Arrival) : Sqlite :=
  arrivals.foldl (fun st a => st.applyPage a.sqliteOrder a.page) st

def Mem.threadId (st : Mem) (scope : SyncScope) (key : Text) : Option Text :=
  (st.messages.get? (scope, key)).bind MailRow.threadId

def heldAfter (arrivals : List Arrival) : Row → Option Message :=
  arrivals.foldl (fun held a => a.page.held held) fun _ => none

def SameThreads (arrivals : List Arrival) : Prop :=
  ∀ scope key, (Mem.new.applyArrivals arrivals).threadId scope key =
    (Sqlite.new.applyArrivals arrivals).threadId scope key

/-- Messages connected through the ids they touch share a thread in the reference store. -/
def ConnectedTogether (arrivals : List Arrival) : Prop :=
  ∀ r r', ReflTransGen (Linked (heldAfter arrivals)) r r' →
    (Mem.new.applyArrivals arrivals).threadId r.1 r.2 =
      (Mem.new.applyArrivals arrivals).threadId r'.1 r'.2

/-- Every page finds a store in which none of its components would decide differently for
having seen another. -/
def AgreeFrom : Mem → List Arrival → Prop
  | _, [] => True
  | st, a :: rest =>
    Compatible (st.view.received a.page) a.page.batches ∧
      AgreeFrom (st.applyPage a.memOrder a.page) rest

section Runs

variable {account : AccountId} {arrivals : List Arrival}

theorem mem_arranged (order : HashOrder (List MailRow)) (page : Page) (B : Set Row) :
    B ∈ (order.arrange page.components).map (rowsOf page.scope) ↔ B ∈ page.batches :=
  ((order.perm page.components).map _).mem_iff

variable {mem : Mem} {sqlite : Sqlite} {held : Row → Option Message}

theorem applyPage_alike {a : Arrival}
    (hm : mem.OneAccount a.page.scope.account) (hs : sqlite.OneAccount a.page.scope.account)
    (hv : mem.view = sqlite.view) (ht : Threaded held sqlite.view)
    (hc : Compatible (mem.view.received a.page) a.page.batches) :
    (mem.applyPage a.memOrder a.page).view = (sqlite.applyPage a.sqliteOrder a.page).view ∧
      Threaded (a.page.held held) (sqlite.applyPage a.sqliteOrder a.page).view := by
  have hsqlite := Sqlite.applyPage_view a.sqliteOrder hs
  have hmem := Mem.applyPage_view a.memOrder hm (hv ▸ ht.whole.bare a.page)
  have hnodup : ((a.sqliteOrder.arrange a.page.components).map (rowsOf a.page.scope)).Nodup :=
    ((a.sqliteOrder.perm a.page.components).map _).nodup_iff.mpr a.page.batches_nodup
  refine ⟨?_, ht.assigns (mem_arranged _ _) hsqlite⟩
  rw [← hv] at hsqlite
  exact (assigns_eq_assignsFrom hc (a.page.apart _) (hv ▸ ht.whole.owned_received a.page) hnodup
    (mem_arranged _ _) (mem_arranged _ _) hsqlite hmem).symm

theorem applyArrivals_alike (haccount : ∀ a ∈ arrivals, a.page.scope.account = account) (hm : mem.OneAccount account)
    (hs : sqlite.OneAccount account) (hv : mem.view = sqlite.view)
    (ht : Threaded held sqlite.view) (h : AgreeFrom mem arrivals) :
    (mem.applyArrivals arrivals).view = (sqlite.applyArrivals arrivals).view ∧
      Threaded (arrivals.foldl (fun held a => a.page.held held) held) (sqlite.applyArrivals arrivals).view := by
  induction arrivals generalizing mem sqlite held with
  | nil => exact ⟨hv, ht⟩
  | cons a rest ih =>
    obtain rfl := haccount a List.mem_cons_self
    obtain ⟨hview, hthreaded⟩ := applyPage_alike hm hs hv ht h.1
    exact ih (fun b hb => haccount b (List.mem_cons_of_mem _ hb))
      (Mem.oneAccount_applyPage a.memOrder hm) (Sqlite.oneAccount_applyPage a.sqliteOrder hs)
      hview hthreaded h.2

theorem threaded_empty : Threaded (fun _ => none) View.empty :=
  ⟨whole_empty, fun _ _ h => absurd h (by simp), fun _ _ ⟨_, _, h, _⟩ => absurd h (by simp)⟩

/-- Over pages whose components agree, the two stores thread alike and connected messages
share a thread. -/
theorem stores_thread_alike (haccount : ∀ a ∈ arrivals, a.page.scope.account = account)
    (h : AgreeFrom Mem.new arrivals) : SameThreads arrivals ∧ ConnectedTogether arrivals := by
  have hnew : Mem.new.view = Sqlite.new.view := Mem.view_new.trans Sqlite.view_new.symm
  have hmem : Mem.new.OneAccount account := by
    intro r m hr
    exact absurd hr (by simp [Mem.new])
  obtain ⟨hview, hthreaded⟩ := applyArrivals_alike haccount hmem (Sqlite.oneAccount_new account)
    hnew (Sqlite.view_new ▸ threaded_empty) h
  constructor
  · intro scope key
    exact congrFun (congrArg View.thread hview) (scope, key)
  · intro r r' hconnected
    show (Mem.new.applyArrivals arrivals).view.thread r = (Mem.new.applyArrivals arrivals).view.thread r'
    rw [hview]
    induction hconnected with
    | refl => rfl
    | tail _ hlinked ih => exact ih.trans (hthreaded.linked _ _ hlinked)

end Runs

section OneThread

variable {u : View} {batches : List (Set Row)} {t : Text}

theorem compatible_of_no_threads (hnone : ∀ r, u.thread r = none) : Compatible u batches := by
  have hreached : ∀ B, u.reached B = ∅ := by
    refine fun B => Set.eq_empty_of_forall_notMem ?_
    rintro t ⟨m, hm, -⟩
    rw [hnone m] at hm
    simp at hm
  have hunder : u.under ∅ = ∅ := Set.eq_empty_of_forall_notMem fun r ⟨t, ht, _⟩ => ht
  constructor
  · intro B _ t ht
    rwa [NamedIn, View.moved, hreached, hunder, Set.inter_empty, ← hunder, ← hreached B] at ht
  · intro B _ B' _ _ t t' _ _ hmeet
    rw [hreached, hreached, Set.empty_inter] at hmeet
    simp at hmeet

theorem compatible_of_one_thread (hone : ∀ r s, u.thread r = some s → s = t ∧ r ∈ u.graphed)
    (hleast : ∀ r i, u.owns r i → t ≤ i) (howner : ∃ r, u.thread r = some t ∧ u.owns r t)
    (hreach : ∀ B ∈ batches, t ∈ u.reached B) : Compatible u batches := by
  have hnamed : ∀ B ∈ batches, ∀ s, NamedIn u B s → s = t := by
    intro B hB s hs
    obtain ⟨r, hr, hown⟩ := howner
    refine IsName.unique hs (Or.inl ⟨⟨r, Or.inr ⟨(hone r t hr).2, t, hreach B hB, hr⟩, hown⟩, ?_⟩)
    rintro i ⟨r', -, hown'⟩
    exact hleast r' i hown'
  have hmoved : ∀ B, B ∪ u.under (u.reached B) = u.moved B := by
    intro B
    rw [View.moved, Set.inter_eq_right.mpr]
    rintro r ⟨s, -, hr⟩
    exact (hone r s hr).2
  constructor
  · intro B _ s hs
    rw [hmoved]
    exact hs
  · intro B hB B' hB' _ s s' hs hs' _
    rw [hnamed B hB s hs, hnamed B' hB' s' hs']
    exact ⟨rfl, Or.inl (hreach B' hB')⟩

end OneThread

namespace Sample

/-- A conversation of two. -/
def started : Page where
  scope := inbox
  removed := []
  messages := [
    ⟨⟨"m1", by decide⟩, ⟨[⟨"b@h", by decide⟩], [], []⟩, none⟩,
    ⟨⟨"m2", by decide⟩, ⟨[⟨"c@h", by decide⟩], [], [⟨"b@h", by decide⟩]⟩, none⟩]

/-- Two messages that each reach the conversation on their own, the first owning `id`. -/
def reaching (id : Text) : Page where
  scope := inbox
  removed := []
  messages := [
    ⟨⟨"m3", by decide⟩, ⟨[id], [], [⟨"b@h", by decide⟩]⟩, none⟩,
    ⟨⟨"m4", by decide⟩, ⟨[⟨"d@h", by decide⟩], [], [⟨"c@h", by decide⟩]⟩, none⟩]

def foundBackwards : HashOrder (List MailRow) := ⟨List.reverse, fun _ => List.reverse_perm _⟩

def joined : List Arrival :=
  [⟨started, asFound, foundBackwards⟩, ⟨reaching ⟨"e@h", by decide⟩, asFound, foundBackwards⟩]

def beforeJoin : Mem := Mem.new.applyPage asFound started

def atJoin : Mem := beforeJoin.receive (reaching ⟨"e@h", by decide⟩)

def conversation : Text := ⟨"b@h", by decide⟩

theorem atJoin_compatible : Compatible atJoin.view (reaching ⟨"e@h", by decide⟩).batches := by
  have hone : ∀ e ∈ atJoin.messages.rows, ∀ s ∈ e.2.threadId,
      s = conversation ∧ ∃ ids ∈ atJoin.refs.get? e.1, ∃ ref ∈ ids, ref.owned = true := by decide
  have hleast : ∀ e ∈ atJoin.refs.rows, ∀ ref ∈ e.2, ref.owned = true → conversation ≤ ref.msgid := by decide
  have hreach : ∀ c ∈ (reaching ⟨"e@h", by decide⟩).components, ∃ row ∈ c, ∃ e ∈ atJoin.messages.rows,
      e.2.threadId = some conversation ∧ ∃ ids ∈ atJoin.refs.get? e.1, ∃ ref ∈ ids,
        ∃ ids' ∈ atJoin.refs.get? (inbox, row.key), ∃ ref' ∈ ids', ref'.msgid = ref.msgid := by decide
  refine compatible_of_one_thread (t := conversation) ?_ ?_ ⟨(inbox, ⟨"m1", by decide⟩), by decide, ?_⟩ ?_
  · intro r s hr
    obtain ⟨m, hm, hs⟩ := Option.bind_eq_some_iff.mp hr
    obtain ⟨hname, ids, hids, ref, href, -⟩ := hone (r, m) ((Keyed.get?_eq_some_iff _).mp hm) s hs
    exact ⟨hname, ref.msgid, ids, hids, ref, href, rfl⟩
  · rintro r i ⟨ids, hids, ref, href, rfl, howned⟩
    exact hleast (r, ids) ((Keyed.get?_eq_some_iff _).mp hids) ref href howned
  · exact ⟨_, rfl, _, List.mem_cons_self, rfl, rfl⟩
  · intro B hB
    obtain ⟨c, hc, rfl⟩ := Page.mem_batches.mp hB
    obtain ⟨row, hrow, e, he, hthread, ids, hids, ref, href, ids', hids', ref', href', heq⟩ := hreach c hc
    refine ⟨e.1, ?_, (inbox, row.key), ⟨row, hrow, rfl⟩, ref.msgid, ⟨ids, hids, ref, href, rfl⟩,
      ids', hids', ref', href', heq⟩
    exact Option.bind_eq_some_iff.mpr ⟨e.2, (Keyed.get?_eq_some_iff _).mpr he, hthread⟩

theorem joined_agree : AgreeFrom Mem.new joined := by
  refine ⟨compatible_of_no_threads fun r => ?_, ?_, trivial⟩
  · rw [← Mem.view_receive]
    have hnone : ∀ e ∈ (Mem.new.receive started).messages.rows, e.2.threadId = none := by decide
    refine Option.bind_eq_none_iff.mpr fun m hm => hnone (r, m) ((Keyed.get?_eq_some_iff _).mp hm)
  · have h := atJoin_compatible
    rwa [atJoin, Mem.view_receive] at h

end Sample

open Sample in
/-- Two late messages, in two components, join one stored conversation. -/
theorem stores_thread_alike_joined : SameThreads joined ∧ ConnectedTogether joined ∧
    (reaching ⟨"e@h", by decide⟩).components.length = 2 ∧
    ∀ row ∈ started.rows ++ (reaching ⟨"e@h", by decide⟩).rows,
      (Sqlite.new.applyArrivals joined).threadId inbox row.key = some conversation := by
  have haccount : ∀ a ∈ joined, a.page.scope.account = "a" := by decide
  have halike := stores_thread_alike haccount joined_agree
  exact ⟨halike.1, halike.2, by decide, by decide⟩

namespace Sample

/-- The second page's first message owns an id below all of theirs. -/
def twoLate : List Arrival := [⟨started, asFound, asFound⟩, ⟨reaching ⟨"a@h", by decide⟩, asFound, asFound⟩]

end Sample

open Sample in
/-- The durable store sees the conversation under its new name when it comes to the second
late message.  The reference store does not: it names the conversation back, and leaves the
first one behind. -/
theorem twoLate_apart : (∀ a ∈ twoLate, a.page.scope.account = "a") ∧
    ¬ SameThreads twoLate ∧ ¬ ConnectedTogether twoLate := by
  refine ⟨by decide, ?_, ?_⟩
  · intro h
    have hm4 := h inbox ⟨"m4", by decide⟩
    revert hm4
    decide
  · intro h
    have hlinked : Linked (heldAfter twoLate) (inbox, ⟨"m1", by decide⟩) (inbox, ⟨"m3", by decide⟩) :=
      ⟨⟨⟨"m1", by decide⟩, ⟨[⟨"b@h", by decide⟩], [], []⟩, none⟩,
        ⟨⟨"m3", by decide⟩, ⟨[⟨"a@h", by decide⟩], [], [⟨"b@h", by decide⟩]⟩, none⟩,
        by decide, by decide, rfl, rfl, ⟨"b@h", by decide⟩, by decide, by decide⟩
    have hsame := h _ _ (.single hlinked)
    revert hsame
    decide

end Threading
end SyncEngine
