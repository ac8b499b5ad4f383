import SyncEngine.Threading.SqlitePage

/-!
# Threading page by page is threading the whole account

The messages of an account arrive in pages, in any split and any order, and the durable store ends with what one pass
over all of them would have assigned.

The invariant is about the messages settled so far: each is under the name of its component among them.  A page first
brings messages without a thread, and each of its components then joins the settled ones by `Named.merge`.  A name is an
owned id or a key of a settled message, so nothing outside the graph is ever under a name that a component reaches.
-/

namespace SyncEngine
namespace Threading

abbrev Filed := SyncScope × Message

namespace Filed

def row (x : Filed) : Row := (x.1, x.2.key)

def Touches (x : Filed) (id : Text) : Prop := id ∈ x.2.touchedIds

def Owns (x : Filed) (id : Text) : Prop := id ∈ x.2.envelope.messageId

def key (x : Filed) : Text := x.2.key

/-- Threading decides for it, and it shares ids. -/
def Graphed (x : Filed) : Prop := x.2.derivable = true ∧ x.2.touchedIds ≠ []

end Filed

/-- The messages of one account.  Their keys are distinct and no `Message-ID` is one of
them.  A thread comes with a message only from its provider, and is then neither a key nor
a `Message-ID`. -/
structure OfAccount (account : AccountId) (all : List Filed) : Prop where
  account : ∀ x ∈ all, x.1.account = account
  keys : (all.map Filed.key).Nodup
  disjoint : ∀ x ∈ all, ∀ y ∈ all, ¬ x.Owns y.key
  provided : ∀ x ∈ all, ∀ t, x.2.thread = some t → t.isDerived = false ∧
    ∀ y ∈ all, t.id ≠ y.key ∧ ¬ y.Owns t.id

/-- Pages of the account that bring exactly these messages and remove none. -/
structure Splits (account : AccountId) (all : List Filed) (pages : List Page) : Prop where
  account : ∀ p ∈ pages, p.scope.account = account
  removed : ∀ p ∈ pages, p.removed = []
  filed : ∀ p ∈ pages, ∀ m ∈ p.messages, (p.scope, m) ∈ all
  cover : ∀ x ∈ all, ∃ p ∈ pages, p.scope = x.1 ∧ x.2 ∈ p.messages

def Page.filed (page : Page) : Set Filed := {x | x.1 = page.scope ∧ x.2 ∈ page.messages}

/-- What a view holds when the messages `seen` were taken in and the threads of `settled`
are decided. -/
structure Settled (v : View) (seen settled : Set Filed) : Prop where
  touches : ∀ r id, v.touches r id ↔
    ∃ x ∈ seen, x.row = r ∧ x.2.derivable = true ∧ x.Touches id
  owns : ∀ r id, v.owns r id ↔ ∃ x ∈ seen, x.row = r ∧ x.2.derivable = true ∧ x.Owns id
  graphed : ∀ x ∈ settled, x ∈ seen ∧ x.Graphed
  named : Named Filed.Touches Filed.Owns Filed.key settled fun x => v.thread x.row
  bare : ∀ x ∈ seen, x.2.derivable = true → x.2.touchedIds = [] → v.thread x.row = some x.key
  provided : ∀ x ∈ seen, ∀ t, x.2.thread = some t → v.thread x.row = some t.id
  decided : ∀ r t, v.thread r = some t → ∃ x ∈ seen, x.row = r ∧ (x ∈ settled ∨ ¬ x.Graphed)

section Steps

variable {account : AccountId} {all : List Filed} {v v' : View} {seen settled : Set Filed}
  {x y : Filed}

theorem OfAccount.eq_of_key (h : OfAccount account all) (hx : x ∈ all) (hy : y ∈ all)
    (hk : x.key = y.key) : x = y := List.inj_on_of_nodup_map h.keys hx hy hk

theorem OfAccount.eq_of_row (h : OfAccount account all) (hx : x ∈ all) (hy : y ∈ all)
    (hr : x.row = y.row) : x = y := h.eq_of_key hx hy (congrArg Prod.snd hr)

theorem Filed.Owns.touches {id : Text} (h : x.Owns id) : x.Touches id := List.mem_append_left _ (List.mem_append_left _ h)

theorem OfAccount.distinguished (h : OfAccount account all) :
    Distinguished Filed.Touches Filed.Owns Filed.key {x | x ∈ all} :=
  ⟨fun _ _ _ hown => hown.touches, fun _ hx _ hy hk => h.eq_of_key hx hy hk, h.disjoint⟩

theorem OfAccount.thread_of_derivable (h : OfAccount account all) (hx : x ∈ all)
    (hd : x.2.derivable = true) : x.2.thread = none :=
  Message.threadId_eq_none_of_derivable hd fun t ht => (h.provided x hx t ht).1

theorem OfAccount.exists_thread (hd : x.2.derivable = false) : ∃ t, x.2.thread = some t := by
  cases ht : x.2.thread with
  | none => simp [Message.derivable, ht] at hd
  | some t => exact ⟨t, rfl⟩

theorem OfAccount.said_at (h : OfAccount account all) (hall : ∀ x ∈ seen, x ∈ all) {P : Filed → Prop} (hx : x ∈ seen) :
    (∃ y ∈ seen, y.row = x.row ∧ y.2.derivable = true ∧ P y) ↔ x.2.derivable = true ∧ P x := by
  constructor
  · rintro ⟨y, hy, hrow, hsaid⟩
    have heq := h.eq_of_row (hall y hy) (hall x hx) hrow
    rwa [heq] at hsaid
  · exact fun hsaid => ⟨x, hx, rfl, hsaid⟩

section AtView

variable (h : OfAccount account all) (hall : ∀ x ∈ seen, x ∈ all) (hs : Settled v seen settled)
include h hall hs

theorem Settled.touches_row (hx : x ∈ seen) (id : Text) : v.touches x.row id ↔ x.2.derivable = true ∧ x.Touches id := by
  rw [hs.touches]
  exact h.said_at hall hx

theorem Settled.owns_row (hx : x ∈ seen) (id : Text) : v.owns x.row id ↔ x.2.derivable = true ∧ x.Owns id := by
  rw [hs.owns]
  exact h.said_at hall hx

theorem Settled.mem_of_thread (hx : x ∈ settled) {r : Row} (hr : v.thread r = v.thread x.row) :
    ∃ y ∈ settled, y.row = r := by
  obtain ⟨t, ht, hname⟩ := hs.named x hx
  have hrt : v.thread r = some t := hr.trans ht
  obtain ⟨y, hy, rfl, hcase⟩ := hs.decided r t hrt
  rcases hcase with hset | hnot
  · exact ⟨y, hset, rfl⟩
  · exfalso
    have hsrc : (∃ z ∈ settled, z.Owns t) ∨ ∃ z ∈ settled, z.key = t := by
      rcases hname.source with ⟨z, hz, hown⟩ | ⟨z, hz, hkey⟩
      · exact Or.inl ⟨z, hz.1, hown⟩
      · exact Or.inr ⟨z, hz.1, hkey⟩
    have hzall : ∀ z ∈ settled, z ∈ all := fun z hz => hall z (hs.graphed z hz).1
    by_cases hd : y.2.derivable = true
    · have hids : y.2.touchedIds = [] := by
        by_contra hne
        exact hnot ⟨hd, hne⟩
      have hkey : y.key = t := by
        rw [hs.bare y hy hd hids, Option.some.injEq] at hrt
        exact hrt
      rcases hsrc with ⟨z, hz, hown⟩ | ⟨z, hz, hzk⟩
      · exact h.disjoint z (hzall z hz) y (hall y hy) (hkey ▸ hown)
      · have hzy := h.eq_of_key (hzall z hz) (hall y hy) (hzk.trans hkey.symm)
        exact hnot (hzy ▸ (hs.graphed z hz).2)
    · obtain ⟨p, hp⟩ := OfAccount.exists_thread (Bool.eq_false_iff.mpr hd)
      have hpt : p.id = t := by
        rw [hs.provided y hy p hp, Option.some.injEq] at hrt
        exact hrt
      obtain ⟨-, hfree⟩ := h.provided y (hall y hy) p hp
      rcases hsrc with ⟨z, hz, hown⟩ | ⟨z, hz, hzk⟩
      · exact (hfree z (hzall z hz)).2 (hpt ▸ hown)
      · exact (hfree z (hzall z hz)).1 (hpt.trans hzk.symm)

theorem Settled.under_reached {B : Set Filed} (hB : ∀ x ∈ B, x ∈ seen ∧ x.Graphed) :
    v.under (v.reached (Filed.row '' B)) = Filed.row '' reachedBy Filed.Touches (fun x => v.thread x.row) settled B := by
  ext r
  constructor
  · rintro ⟨t, ⟨m, hm, _, ⟨b, hb, rfl⟩, id, hmid, hbid⟩, hr⟩
    obtain ⟨y, hy, rfl, hcase⟩ := hs.decided m t hm
    obtain ⟨hyd, hyid⟩ := (hs.touches_row h hall hy id).mp hmid
    have hyset : y ∈ settled := by
      rcases hcase with hset | hnot
      · exact hset
      · exact absurd ⟨hyd, List.ne_nil_of_mem hyid⟩ hnot
    obtain ⟨z, hz, rfl⟩ := hs.mem_of_thread h hall hyset (hr.trans hm.symm)
    refine ⟨z, ⟨hz, y, hyset, ⟨b, hb, id, hyid, ?_⟩, hm.trans hr.symm⟩, rfl⟩
    exact ((hs.touches_row h hall (hB b hb).1 id).mp hbid).2
  · rintro ⟨z, ⟨hz, y, hy, ⟨b, hb, id, hyid, hbid⟩, hyz⟩, rfl⟩
    obtain ⟨t, ht, -⟩ := hs.named y hy
    refine ⟨t, ⟨y.row, ht, b.row, ⟨b, hb, rfl⟩, id, ?_, ?_⟩, hyz.symm.trans ht⟩
    · exact (hs.touches_row h hall (hs.graphed y hy).1 id).mpr ⟨(hs.graphed y hy).2.1, hyid⟩
    · exact (hs.touches_row h hall (hB b hb).1 id).mpr ⟨(hB b hb).2.1, hbid⟩

theorem Settled.assign {B : Set Filed} (hB : ∀ x ∈ B, x ∈ seen ∧ x.Graphed) {b : Filed}
    (hconn : ∀ x ∈ B, Joined Filed.Touches B b x) {t : Text}
    (hname : IsName v.owns Prod.snd (Filed.row '' B ∪ v.under (v.reached (Filed.row '' B))) t) :
    Settled (v.assigned (Filed.row '' B) t) seen (settled ∪ B) := by
  have hreach := hs.under_reached h hall hB
  have hparts : ∀ x ∈ B ∪ reachedBy Filed.Touches (fun x => v.thread x.row) settled B, x ∈ seen ∧ x.Graphed := by
    rintro x (hx | hx)
    · exact hB x hx
    · exact hs.graphed x hx.1
  have hmoved : ∀ x ∈ seen, x.row ∈ v.moved (Filed.row '' B) ↔
      x ∈ B ∪ reachedBy Filed.Touches (fun x => v.thread x.row) settled B := by
    intro x hx
    constructor
    · rintro (⟨y, hy, hrow⟩ | ⟨-, hunder⟩)
      · exact Or.inl (h.eq_of_row (hall y (hB y hy).1) (hall x hx) hrow ▸ hy)
      · rw [hreach] at hunder
        obtain ⟨y, hy, hrow⟩ := hunder
        exact Or.inr (h.eq_of_row (hall y (hs.graphed y hy.1).1) (hall x hx) hrow ▸ hy)
    · rintro (hx' | hx')
      · exact Or.inl ⟨x, hx', rfl⟩
      · obtain ⟨hd, hne⟩ := (hs.graphed x hx'.1).2
        obtain ⟨id, hid⟩ := List.exists_mem_of_ne_nil _ hne
        refine Or.inr ⟨⟨id, (hs.touches_row h hall hx id).mpr ⟨hd, hid⟩⟩, ?_⟩
        rw [hreach]
        exact ⟨x, hx', rfl⟩
  have hkept : ∀ x ∈ seen, ¬ x.Graphed → (v.assigned (Filed.row '' B) t).thread x.row = v.thread x.row := by
    intro x hx hno
    refine View.assigned_of_not_mem fun hm => ?_
    exact hno (hparts x ((hmoved x hx).mp hm)).2
  rw [hreach, ← Set.image_union] at hname
  refine ⟨hs.touches, hs.owns, ?_, ?_, ?_, ?_, ?_⟩
  · rintro x (hx | hx)
    · exact hs.graphed x hx
    · exact hB x hx
  · have hname' := (isName_image (fun x hx id => (hs.owns_row h hall (hparts x hx).1 id).trans
      (and_iff_right (hparts x hx).2.1)) fun _ _ => rfl).mp hname
    refine hs.named.merge h.distinguished (fun x hx => hall x (hs.graphed x hx).1) hconn hname' ?_ ?_
    · intro x hx
      exact View.assigned_of_mem ((hmoved x (hparts x hx).1).mpr hx)
    · intro x hx hno
      exact View.assigned_of_not_mem fun hm => hno ((hmoved x (hs.graphed x hx).1).mp hm)
  · intro x hx hd hids
    rw [hkept x hx fun hg => hg.2 hids]
    exact hs.bare x hx hd hids
  · intro x hx p hp
    have hno : ¬ x.Graphed := by
      intro hg
      rw [h.thread_of_derivable (hall x hx) hg.1] at hp
      simp at hp
    rw [hkept x hx hno]
    exact hs.provided x hx p hp
  · intro r t' hr
    by_cases hm : r ∈ v.moved (Filed.row '' B)
    · have himage : r ∈ Filed.row '' (B ∪ reachedBy Filed.Touches (fun x => v.thread x.row) settled B) := by
        rw [Set.image_union, ← hreach]
        exact hm.imp_right fun hm => hm.2
      obtain ⟨x, hx, rfl⟩ := himage
      refine ⟨x, (hparts x hx).1, rfl, Or.inl ?_⟩
      exact hx.elim Or.inr fun hx => Or.inl hx.1
    · rw [View.assigned_of_not_mem hm] at hr
      obtain ⟨x, hx, hrow, hcase⟩ := hs.decided r t' hr
      exact ⟨x, hx, hrow, hcase.imp_left Or.inl⟩

end AtView

/-! ## Taking a page in -/

section AtPage

variable {page : Page}

theorem thread_received (hremoved : page.removed = []) (r : Row) : (v.received page).thread r =
      if (r.1 = page.scope ∧ r.2 ∈ page.bare.map MailRow.key) ∧
          (page.rows.foldl (View.upserted page.scope) v).thread r = none then some r.2
      else (page.rows.foldl (View.upserted page.scope) v).thread r := by
  rw [View.received, View.written, hremoved, View.thread_foldl_bared]
  rfl

theorem Page.mem_bare {key : Text} : key ∈ page.bare.map MailRow.key ↔
    (∃ m ∈ page.messages, m.key = key ∧ m.threadId = none) ∧ key ∉ page.refs.map MailRefRow.key := by
  simp only [Page.bare, Page.rows, List.mem_map, List.mem_filter, Bool.and_eq_true,
    Option.isNone_iff_eq_none, Bool.not_eq_true', List.contains_eq_mem, decide_eq_false_iff_not]
  constructor
  · rintro ⟨_, ⟨⟨m, hm, rfl⟩, hnone, hno⟩, rfl⟩
    exact ⟨⟨m, hm, rfl, hnone⟩, hno⟩
  · rintro ⟨⟨m, hm, rfl, hnone⟩, hno⟩
    exact ⟨m.row, ⟨⟨m, hm, rfl⟩, hnone, hno⟩, rfl⟩

theorem Page.exists_of_row {row : MailRow} (hrow : row ∈ page.rows) : ∃ m ∈ page.messages, row = m.row := by
  obtain ⟨m, hm, rfl⟩ := List.mem_map.mp hrow
  exact ⟨m, hm, rfl⟩

theorem thread_received_elsewhere (hremoved : page.removed = []) {r : Row}
    (hno : ∀ m ∈ page.messages, (page.scope, m.key) ≠ r) :
    (v.received page).thread r = v.thread r := by
  have hw : (page.rows.foldl (View.upserted page.scope) v).thread r = v.thread r := by
    apply View.thread_foldl_upserted_none
    intro row hrow heq
    obtain ⟨m, hm, rfl⟩ := Page.exists_of_row hrow
    exact absurd heq (hno m hm)
  rw [thread_received hremoved, hw, if_neg]
  rintro ⟨⟨hscope, hkey⟩, -⟩
  obtain ⟨⟨m, hm, hmk, -⟩, -⟩ := Page.mem_bare.mp hkey
  exact hno m hm (Prod.ext hscope.symm hmk)

section Filed

variable (h : OfAccount account all) (hfiled : ∀ x ∈ page.filed, x ∈ all)
include h hfiled

theorem Page.eq_of_row (hx : x ∈ all) {m : Message} (hm : m ∈ page.messages)
    (hrow : (page.scope, m.key) = x.row) : (page.scope, m) = x :=
  h.eq_of_row (hfiled (page.scope, m) ⟨rfl, hm⟩) hx hrow

theorem upserted_of_none (hx : x ∈ all) (hthread : x.2.thread = none) :
    (page.rows.foldl (View.upserted page.scope) v).thread x.row = v.thread x.row := by
  apply View.thread_foldl_upserted_none
  intro row hrow heq
  obtain ⟨m, hm, rfl⟩ := Page.exists_of_row hrow
  have hmx := Page.eq_of_row h hfiled hx hm heq
  show m.thread.map ThreadRef.id = none
  rw [← hmx] at hthread
  rw [hthread]
  rfl

theorem thread_received_kept (hremoved : page.removed = []) (hx : x ∈ all) (hthread : x.2.thread = none)
    (hno : x ∈ page.filed → x.2.touchedIds = [] → v.thread x.row ≠ none) :
    (v.received page).thread x.row = v.thread x.row := by
  rw [thread_received hremoved, upserted_of_none h hfiled hx hthread, if_neg]
  rintro ⟨⟨hscope, hkey⟩, hnone⟩
  obtain ⟨⟨m, hm, hmk, -⟩, hrefs⟩ := Page.mem_bare.mp hkey
  have hmx := Page.eq_of_row h hfiled hx hm (Prod.ext hscope.symm hmk)
  refine hno ⟨hscope, by rw [← hmx]; exact hm⟩ ?_ hnone
  by_contra hne
  refine hrefs (Page.mem_refs_keys.mpr ⟨m, hm, hmk, ?_, ?_⟩)
  · rw [← hmx] at hthread
    rw [Message.derivable, hthread]
  · rw [← hmx] at hne
    exact hne

theorem thread_received_bare (hremoved : page.removed = []) (hx : x ∈ page.filed)
    (hthread : x.2.thread = none) (hids : x.2.touchedIds = [])
    (hv : v.thread x.row = none ∨ v.thread x.row = some x.key) :
    (v.received page).thread x.row = some x.key := by
  rw [thread_received hremoved, upserted_of_none h hfiled (hfiled x hx) hthread]
  rcases hv with hv | hv
  · rw [if_pos]
    · rfl
    · refine ⟨⟨hx.1, Page.mem_bare.mpr ⟨⟨x.2, hx.2, rfl, ?_⟩, ?_⟩⟩, hv⟩
      · rw [Message.threadId, hthread]
        rfl
      · intro hkey
        obtain ⟨m, hm, hmk, -, hne⟩ := Page.mem_refs_keys.mp hkey
        have hmx := Page.eq_of_row h hfiled (hfiled x hx) hm (Prod.ext hx.1.symm hmk)
        rw [← hmx] at hids
        exact hne hids
  · rw [hv, if_neg (by simp)]

theorem thread_received_provided (hremoved : page.removed = []) (hx : x ∈ page.filed)
    {t : ThreadRef} (hthread : x.2.thread = some t) :
    (v.received page).thread x.row = some t.id := by
  have hw : (page.rows.foldl (View.upserted page.scope) v).thread x.row = some t.id := by
    apply View.thread_foldl_upserted_some
    · intro row hrow heq
      obtain ⟨m, hm, rfl⟩ := Page.exists_of_row hrow
      have hmx := Page.eq_of_row h hfiled (hfiled x hx) hm heq
      rw [← hmx] at hthread
      show m.thread.map ThreadRef.id = some t.id
      rw [hthread]
      rfl
    · exact Or.inl ⟨x.2.row, List.mem_map_of_mem hx.2, Prod.ext hx.1.symm rfl⟩
  rw [thread_received hremoved, hw, if_neg (by simp)]

/-- Something said of the messages at a row once the page is in: of the page's own where it
writes graph rows, of those seen before elsewhere. -/
theorem seen_or_filed (hall : ∀ x ∈ seen, x ∈ all) {Q : Filed → Prop} {A : Prop} {r : Row} (hQ : ∀ x, Q x → x.Graphed)
    (hnamed : r.1 = page.scope ∧ r.2 ∈ page.refs.map MailRefRow.key →
      (A ↔ ∃ m ∈ page.messages, m.key = r.2 ∧ Q (page.scope, m)))
    (helse : ¬ (r.1 = page.scope ∧ r.2 ∈ page.refs.map MailRefRow.key) → (A ↔ ∃ x ∈ seen, x.row = r ∧ Q x)) :
    A ↔ ∃ x ∈ seen ∪ page.filed, x.row = r ∧ Q x := by
  by_cases hr : r.1 = page.scope ∧ r.2 ∈ page.refs.map MailRefRow.key
  · rw [hnamed hr]
    obtain ⟨m₀, hm₀, hk₀, -, -⟩ := Page.mem_refs_keys.mp hr.2
    constructor
    · rintro ⟨m, hm, hk, hq⟩
      exact ⟨(page.scope, m), Or.inr ⟨rfl, hm⟩, Prod.ext hr.1.symm hk, hq⟩
    · rintro ⟨x, hx, rfl, hq⟩
      have hxall : x ∈ all := hx.elim (hall x) (hfiled x)
      have hmx := Page.eq_of_row h hfiled hxall hm₀ (Prod.ext hr.1.symm hk₀)
      rw [← hmx] at hq
      exact ⟨m₀, hm₀, hk₀, hq⟩
  · rw [helse hr]
    constructor
    · rintro ⟨x, hx, hrow, hq⟩
      exact ⟨x, Or.inl hx, hrow, hq⟩
    · rintro ⟨x, hx | hx, rfl, hq⟩
      · exact ⟨x, hx, rfl, hq⟩
      · obtain ⟨hd, hne⟩ := hQ x hq
        exact absurd ⟨hx.1, Page.mem_refs_keys.mpr ⟨x.2, hx.2, rfl, hd, hne⟩⟩ hr

theorem Settled.receive (hall : ∀ x ∈ seen, x ∈ all) (hremoved : page.removed = [])
    (hs : Settled v seen settled) : Settled (v.received page) (seen ∪ page.filed) settled := by
  have hthread : ∀ x ∈ all, x.2.derivable = true → x.2.thread = none := fun x hx hd => h.thread_of_derivable hx hd
  -- a row the page does not write was seen before
  have hbefore : ∀ x ∈ seen ∪ page.filed, x ∉ page.filed → x ∈ seen := fun x hx hno => hx.resolve_right hno
  have helsewhere : ∀ x ∈ seen, x ∉ page.filed → (v.received page).thread x.row = v.thread x.row := by
    intro x hx hno
    apply thread_received_elsewhere hremoved
    intro m hm heq
    have hmx := Page.eq_of_row h hfiled (hall x hx) hm heq
    exact hno (hmx ▸ ⟨rfl, hm⟩)
  have hsettled : ∀ x ∈ settled, (v.received page).thread x.row = v.thread x.row := by
    intro x hx
    obtain ⟨hseen, hd, hne⟩ := hs.graphed x hx
    exact thread_received_kept h hfiled hremoved (hall x hseen) (hthread x (hall x hseen) hd)
      fun _ hids => absurd hids hne
  refine ⟨?_, ?_, ?_, ?_, ?_, ?_, ?_⟩
  · intro r id
    refine seen_or_filed h hfiled hall (fun x hx => ⟨hx.1, List.ne_nil_of_mem hx.2⟩) ?_ ?_
    · rintro ⟨hscope, hkey⟩
      rw [show r = (page.scope, r.2) from Prod.ext hscope rfl, (View.touches_received hkey id).1]
      exact Page.mem_refs
    · intro hno
      rw [(View.touches_received_elsewhere hremoved hno id).1, hs.touches]
  · intro r id
    refine seen_or_filed h hfiled hall (fun x hx => ⟨hx.1, List.ne_nil_of_mem (Filed.Owns.touches hx.2)⟩) ?_ ?_
    · rintro ⟨hscope, hkey⟩
      rw [show r = (page.scope, r.2) from Prod.ext hscope rfl, (View.touches_received hkey id).2]
      exact Page.owned_refs
    · intro hno
      rw [(View.touches_received_elsewhere hremoved hno id).2, hs.owns]
  · intro x hx
    exact ⟨Or.inl (hs.graphed x hx).1, (hs.graphed x hx).2⟩
  · intro x hx
    obtain ⟨t, ht, hname⟩ := hs.named x hx
    exact ⟨t, (hsettled x hx).trans ht, hname⟩
  · intro x hx hd hids
    by_cases hin : x ∈ page.filed
    · refine thread_received_bare h hfiled hremoved hin (hthread x (hfiled x hin) hd) hids ?_
      cases ht : v.thread x.row with
      | none => exact Or.inl rfl
      | some t =>
        obtain ⟨y, hy, hrow, -⟩ := hs.decided x.row t ht
        have hyx := h.eq_of_row (hall y hy) (hfiled x hin) hrow
        subst hyx
        exact Or.inr (ht.symm.trans (hs.bare y hy hd hids))
    · rw [helsewhere x (hbefore x hx hin) hin]
      exact hs.bare x (hbefore x hx hin) hd hids
  · intro x hx t ht
    by_cases hin : x ∈ page.filed
    · exact thread_received_provided h hfiled hremoved hin ht
    · rw [helsewhere x (hbefore x hx hin) hin]
      exact hs.provided x (hbefore x hx hin) t ht
  · intro r t hr
    by_cases hat : ∃ m ∈ page.messages, (page.scope, m.key) = r
    · obtain ⟨m, hm, rfl⟩ := hat
      have hin : (page.scope, m) ∈ page.filed := ⟨rfl, hm⟩
      by_cases hg : Filed.Graphed (page.scope, m)
      · have hkept := thread_received_kept (v := v) h hfiled hremoved (hfiled _ hin)
          (hthread _ (hfiled _ hin) hg.1) fun _ hids => absurd hids hg.2
        obtain ⟨x, hx, hrow, hcase⟩ := hs.decided _ t (hkept.symm.trans hr)
        exact ⟨x, Or.inl hx, hrow, hcase⟩
      · exact ⟨(page.scope, m), Or.inr hin, rfl, Or.inr hg⟩
    · rw [thread_received_elsewhere hremoved fun m hm heq => hat ⟨m, hm, heq⟩] at hr
      obtain ⟨x, hx, hrow, hcase⟩ := hs.decided r t hr
      exact ⟨x, Or.inl hx, hrow, hcase⟩

end Filed

/-! ## Assigning its components -/

/-- The page's messages whose rows are in the component. -/
def Page.filedIn (page : Page) (c : List MailRow) : Set Filed :=
  {x | x ∈ page.filed ∧ x.row ∈ rowsOf page.scope c}

theorem Page.mem_graphed {row : MailRow} : row ∈ page.graphed ↔
    (∃ m ∈ page.messages, row = m.row) ∧ row.threadId = none ∧ row.key ∈ page.refs.map MailRefRow.key := by
  rw [Page.graphed, List.mem_filter, Bool.and_eq_true, Option.isNone_iff_eq_none, List.contains_iff_mem]
  refine and_congr_left fun _ => ?_
  constructor
  · exact Page.exists_of_row
  · rintro ⟨m, hm, rfl⟩
    exact List.mem_map_of_mem hm

theorem Page.row_filedIn {c : List MailRow} (hc : c ∈ page.components) :
    Filed.row '' page.filedIn c = rowsOf page.scope c := by
  ext r
  constructor
  · rintro ⟨x, hx, rfl⟩
    exact hx.2
  · intro hr
    obtain ⟨row, hrow, rfl⟩ := hr
    obtain ⟨⟨m, hm, rfl⟩, -, -⟩ := Page.mem_graphed.mp (components_subset hc hrow)
    exact ⟨(page.scope, m), ⟨⟨rfl, hm⟩, m.row, hrow, rfl⟩, rfl⟩

section InComponent

variable (h : OfAccount account all) (hfiled : ∀ x ∈ page.filed, x ∈ all)
include h hfiled

theorem Page.graphed_of_mem (hx : x ∈ page.filed) : x.2.row ∈ page.graphed ↔ x.Graphed := by
  rw [Page.mem_graphed]
  constructor
  · rintro ⟨-, hnone, hkey⟩
    obtain ⟨m, hm, hmk, hd, hne⟩ := Page.mem_refs_keys.mp hkey
    have hmx := Page.eq_of_row h hfiled (hfiled x hx) hm (Prod.ext hx.1.symm hmk)
    rw [← hmx]
    exact ⟨hd, hne⟩
  · rintro ⟨hd, hne⟩
    refine ⟨⟨x.2, hx.2, rfl⟩, ?_, Page.mem_refs_keys.mpr ⟨x.2, hx.2, rfl, hd, hne⟩⟩
    show x.2.thread.map ThreadRef.id = none
    rw [h.thread_of_derivable (hfiled x hx) hd]
    rfl

theorem Page.filedIn_graphed {c : List MailRow} (hc : c ∈ page.components) (hx : x ∈ page.filedIn c) : x.Graphed := by
  obtain ⟨hin, row, hrow, heq⟩ := hx
  obtain ⟨⟨m, hm, rfl⟩, -, -⟩ := Page.mem_graphed.mp (components_subset hc hrow)
  have hmx := Page.eq_of_row h hfiled (hfiled x hin) hm heq.symm
  rw [← Page.graphed_of_mem h hfiled hin, ← hmx]
  exact components_subset hc hrow

theorem Page.filedIn_connected {c : List MailRow} (hc : c ∈ page.components) :
    ∃ b, ∀ x ∈ page.filedIn c, Joined Filed.Touches (page.filedIn c) b x := by
  have hkeys : Filed.key '' page.filedIn c = {k | ∃ row ∈ c, row.key = k} := by
    ext k
    constructor
    · rintro ⟨x, ⟨-, row, hrow, heq⟩, rfl⟩
      exact ⟨row, hrow, (congrArg Prod.snd heq).symm⟩
    · rintro ⟨row, hrow, rfl⟩
      have hin : (page.scope, row.key) ∈ Filed.row '' page.filedIn c := by
        rw [Page.row_filedIn hc]
        exact ⟨row, hrow, rfl⟩
      obtain ⟨x, hx, hxr⟩ := hin
      exact ⟨x, hx, congrArg Prod.snd hxr⟩
  have htouch : ∀ x ∈ page.filedIn c, ∀ id,
      ByKey.Touches (Keyed.group page.refs MailRefRow.key) x.key id ↔ x.Touches id := by
    intro x hx id
    have hiff : ByKey.Touches (Keyed.group page.refs MailRefRow.key) x.key id ↔
        ∃ ref ∈ page.refs, ref.key = x.key ∧ ref.msgid = id := by
      simp only [ByKey.Touches, ByKey.idsOf, refsOf_group, List.mem_map, List.mem_filter, decide_eq_true_eq, and_assoc]
    rw [hiff, Page.mem_refs]
    constructor
    · rintro ⟨m, hm, hmk, -, hid⟩
      have hmx := Page.eq_of_row h hfiled (hfiled x hx.1) hm (Prod.ext hx.1.1.symm hmk)
      rw [← hmx]
      exact hid
    · intro hid
      exact ⟨x.2, hx.1.2, rfl, (Page.filedIn_graphed h hfiled hc hx).1, hid⟩
  obtain ⟨first, hfirst, hjoined⟩ := components_connected hc
  have hfirstKey : first.key ∈ Filed.key '' page.filedIn c := by
    rw [hkeys]
    exact ⟨first, hfirst, rfl⟩
  obtain ⟨b, hb, hbk⟩ := hfirstKey
  refine ⟨b, ?_⟩
  intro x hx
  have hxk : x.key ∈ {k | ∃ row ∈ c, row.key = k} := hkeys ▸ ⟨x, hx, rfl⟩
  obtain ⟨row, hrow, hrk⟩ := hxk
  have hjoin := hjoined row hrow
  rw [← hkeys, ← hbk, hrk] at hjoin
  have hin : x.key ∈ component (ByKey.Touches (Keyed.group page.refs MailRefRow.key))
      (Filed.key '' page.filedIn c) b.key := ⟨⟨x, hx, rfl⟩, hjoin⟩
  rw [component_image htouch hb] at hin
  obtain ⟨y, hy, hyk⟩ := hin
  rw [← h.eq_of_key (hfiled y hy.1.1) (hfiled x hx.1) hyk]
  exact hy.2

end InComponent

theorem Settled.assigns (h : OfAccount account all) (hall : ∀ x ∈ seen, x ∈ all) (batches : List (Set Filed))
    (hbatch : ∀ B ∈ batches, (∀ x ∈ B, x ∈ seen ∧ x.Graphed) ∧ ∃ b, ∀ x ∈ B, Joined Filed.Touches B b x)
    (hs : Settled v seen settled)
    (ha : Assigns v (batches.map fun B => Filed.row '' B) v') :
    ∃ settled', Settled v' seen settled' ∧ settled ⊆ settled' ∧ ∀ B ∈ batches, B ⊆ settled' := by
  induction batches generalizing v settled with
  | nil =>
    cases ha with
    | nil => exact ⟨settled, hs, subset_rfl, by simp⟩
  | cons B rest ih =>
    cases ha with
    | cons hname hrest =>
      obtain ⟨hB, b, hconn⟩ := hbatch B List.mem_cons_self
      obtain ⟨settled', hs', hsub, hin⟩ := ih (fun B hB => hbatch B (List.mem_cons_of_mem _ hB))
        (hs.assign h hall hB hconn hname) hrest
      refine ⟨settled', hs', subset_trans Set.subset_union_left hsub, ?_⟩
      intro B' hB'
      rcases List.mem_cons.mp hB' with rfl | hB'
      · exact subset_trans Set.subset_union_right hsub
      · exact hin B' hB'

end AtPage

/-! ## Whole runs -/

theorem Settled.page (h : OfAccount account all) (hall : ∀ x ∈ seen, x ∈ all) {page : Page}
    (hfiled : ∀ x ∈ page.filed, x ∈ all) (hremoved : page.removed = []) {st : Sqlite}
    (hst : st.OneAccount page.scope.account) (order : HashOrder (List MailRow))
    (hs : Settled st.view seen settled) (hcomplete : ∀ x ∈ seen, x.Graphed → x ∈ settled) :
    ∃ settled', Settled (st.applyPage order page).view (seen ∪ page.filed) settled' ∧
      ∀ x ∈ seen ∪ page.filed, x.Graphed → x ∈ settled' := by
  have hmem : ∀ c ∈ order.arrange page.components, c ∈ page.components := fun c hc => (order.perm _).mem_iff.mp hc
  have hbatches : (order.arrange page.components).map (rowsOf page.scope) =
      ((order.arrange page.components).map page.filedIn).map fun B => Filed.row '' B := by
    rw [List.map_map]
    refine List.map_congr_left fun c hc => ?_
    exact (Page.row_filedIn (hmem c hc)).symm
  have ha := Sqlite.applyPage_view order hst
  rw [hbatches] at ha
  have hbatch : ∀ B ∈ (order.arrange page.components).map page.filedIn,
      (∀ x ∈ B, x ∈ seen ∪ page.filed ∧ x.Graphed) ∧ ∃ b, ∀ x ∈ B, Joined Filed.Touches B b x := by
    intro B hB
    obtain ⟨c, hc, rfl⟩ := List.mem_map.mp hB
    refine ⟨fun x hx => ⟨Or.inr hx.1, Page.filedIn_graphed h hfiled (hmem c hc) hx⟩, ?_⟩
    exact Page.filedIn_connected h hfiled (hmem c hc)
  obtain ⟨settled', hs', hsub, hin⟩ := (hs.receive h hfiled hall hremoved).assigns h
    (fun x hx => hx.elim (hall x) (hfiled x)) _ hbatch ha
  refine ⟨settled', hs', ?_⟩
  rintro x (hx | hx) hg
  · exact hsub (hcomplete x hx hg)
  · have hrow := (Page.graphed_of_mem h hfiled hx).mpr hg
    obtain ⟨c, hc, hxc⟩ := components_cover (Keyed.group page.refs MailRefRow.key) hrow
    refine hin _ (List.mem_map_of_mem ((order.perm _).mem_iff.mpr hc)) ⟨hx, x.2.row, hxc, ?_⟩
    exact Prod.ext hx.1 rfl

end Steps

/-- Pages applied in turn, each with the order its components happened to come in. -/
def Sqlite.applyPages (st : Sqlite) (pages : List (HashOrder (List MailRow) × Page)) : Sqlite :=
  pages.foldl (fun st p => st.applyPage p.1 p.2) st

def Sqlite.threadId (st : Sqlite) (scope : SyncScope) (key : Text) : Option Text :=
  (st.message.get? (scope, key)).bind MessageRow.threadId

section Runs

variable {account : AccountId} {all : List Filed}
  {pages : List (HashOrder (List MailRow) × Page)}

theorem settled_empty : Settled View.empty ∅ ∅ where
  touches r id := by simp [View.empty]
  owns r id := by simp [View.empty]
  graphed x hx := absurd hx (Set.notMem_empty x)
  named x hx := absurd hx (Set.notMem_empty x)
  bare x hx := absurd hx (Set.notMem_empty x)
  provided x hx := absurd hx (Set.notMem_empty x)
  decided r t hr := by simp [View.empty] at hr

theorem settled_of_pages (h : OfAccount account all) {seen settled : Set Filed} {st : Sqlite}
    (hp : ∀ p ∈ pages, p.2.scope.account = account ∧ p.2.removed = [] ∧ ∀ x ∈ p.2.filed, x ∈ all)
    (hall : ∀ x ∈ seen, x ∈ all) (hst : st.OneAccount account)
    (hs : Settled st.view seen settled) (hcomplete : ∀ x ∈ seen, x.Graphed → x ∈ settled) :
    ∃ seen' settled', Settled (st.applyPages pages).view seen' settled' ∧
      (∀ x ∈ seen', x ∈ all) ∧ (∀ x ∈ seen', x.Graphed → x ∈ settled') ∧ seen ⊆ seen' ∧
      ∀ p ∈ pages, p.2.filed ⊆ seen' := by
  induction pages generalizing st seen settled with
  | nil => exact ⟨seen, settled, hs, hall, hcomplete, subset_rfl, by simp⟩
  | cons p rest ih =>
    obtain ⟨hacc, hremoved, hfiled⟩ := hp p List.mem_cons_self
    rw [← hacc] at hst
    obtain ⟨settled₁, hs₁, hcomplete₁⟩ := hs.page h hall hfiled hremoved hst p.1 hcomplete
    have hst₁ := Sqlite.oneAccount_applyPage p.1 hst
    rw [hacc] at hst₁
    obtain ⟨seen', settled', hs', hall', hcomplete', hsub, hin⟩ := ih (fun p hp' => hp p (List.mem_cons_of_mem _ hp'))
        (fun x hx => hx.elim (hall x) (hfiled x)) hst₁ hs₁ hcomplete₁
    refine ⟨seen', settled', hs', hall', hcomplete', subset_trans Set.subset_union_left hsub, ?_⟩
    intro q hq
    rcases List.mem_cons.mp hq with rfl | hq
    · exact subset_trans Set.subset_union_right hsub
    · exact hin q hq

theorem eq_of_no_ids {D : Set Filed} {x y : Filed} (hids : x.2.touchedIds = [])
    (h : Joined Filed.Touches D x y) : y = x := by
  refine (h.within (S := {x}) rfl ?_).1
  rintro a - rfl b - ⟨id, hid, -⟩
  rw [Filed.Touches, hids] at hid
  exact absurd hid List.not_mem_nil

theorem isName_of_pages (h : OfAccount account all) (hp : Splits account all (pages.map Prod.snd))
    {x : Filed} (hx : x ∈ all) (hd : x.2.derivable = true) :
    ∃ t, (Sqlite.new.applyPages pages).threadId x.1 x.2.key = some t ∧ IsName Filed.Owns Filed.key
        (component Filed.Touches {y | y ∈ all ∧ y.2.derivable = true} x) t := by
  have hpages : ∀ p ∈ pages, p.2.scope.account = account ∧ p.2.removed = [] ∧ ∀ x ∈ p.2.filed, x ∈ all := by
    intro p hp'
    have hin : p.2 ∈ pages.map Prod.snd := List.mem_map_of_mem hp'
    refine ⟨hp.account _ hin, hp.removed _ hin, ?_⟩
    rintro ⟨s, m⟩ ⟨rfl, hm⟩
    exact hp.filed _ hin m hm
  have hnone : ∀ x ∈ (∅ : Set Filed), x ∈ all := fun x hx => absurd hx (Set.notMem_empty x)
  obtain ⟨seen, settled, hs, hall, hcomplete, -, hin⟩ := settled_of_pages h hpages hnone
    (Sqlite.oneAccount_new account) (Sqlite.view_new ▸ settled_empty) (by simp)
  have hseen : ∀ y ∈ all, y ∈ seen := by
    intro y hy
    obtain ⟨p, hp', hscope, hm⟩ := hp.cover y hy
    obtain ⟨q, hq, rfl⟩ := List.mem_map.mp hp'
    exact hin q hq ⟨hscope.symm, hm⟩
  by_cases hids : x.2.touchedIds = []
  · refine ⟨x.key, hs.bare x (hseen x hx) hd hids, Or.inr ⟨?_, ?_⟩⟩
    · rintro y ⟨hy, hxy⟩ id hown
      rw [eq_of_no_ids hids hxy] at hown
      have := Filed.Owns.touches hown
      rw [Filed.Touches, hids] at this
      exact absurd this List.not_mem_nil
    · refine ⟨⟨x, mem_component_self ⟨hx, hd⟩, rfl⟩, ?_⟩
      rintro _ ⟨y, ⟨-, hxy⟩, rfl⟩
      rw [eq_of_no_ids hids hxy]
  · obtain ⟨t, ht, hname⟩ := hs.named x (hcomplete x (hseen x hx) ⟨hd, hids⟩)
    refine ⟨t, ht, ?_⟩
    have hcomp : component Filed.Touches {y | y ∈ all ∧ y.2.derivable = true} x = component Filed.Touches settled x := by
      have hsettled : ∀ y, y ∈ settled ↔ (y ∈ all ∧ y.2.derivable = true) ∧ y.Graphed := by
        intro y
        constructor
        · intro hy
          obtain ⟨hyseen, hg⟩ := hs.graphed y hy
          exact ⟨⟨hall y hyseen, hg.1⟩, hg⟩
        · rintro ⟨⟨hy, -⟩, hg⟩
          exact hcomplete y (hseen y hy) hg
      have hinter : {y | y ∈ all ∧ y.2.derivable = true} ∩ {y | y.Graphed} = settled := Set.ext fun y => (hsettled y).symm
      ext y
      constructor
      · rintro ⟨hy, hxy⟩
        have hclosed : ∀ a ∈ {y : Filed | y ∈ all ∧ y.2.derivable = true}, a ∈ {y | y.Graphed} →
            ∀ b ∈ {y : Filed | y ∈ all ∧ y.2.derivable = true}, Shares Filed.Touches a b →
            b ∈ {y : Filed | y.Graphed} := by
          rintro a - - b hb ⟨id, -, hid⟩
          exact ⟨hb.2, List.ne_nil_of_mem hid⟩
        have hxg : x ∈ {y : Filed | y.Graphed} := ⟨hd, hids⟩
        obtain ⟨hg, hin⟩ := hxy.within hxg hclosed
        rw [hinter] at hin
        exact ⟨(hsettled y).mpr ⟨hy, hg⟩, hin⟩
      · rintro ⟨hy, hxy⟩
        exact ⟨((hsettled y).mp hy).1, hxy.mono fun z hz => ((hsettled z).mp hz).1⟩
    rw [hcomp]
    exact hname

/-- Applying the pages one after the other leaves every message the provider did not thread
on the thread that one pass over all messages assigns it. -/
theorem incremental_eq_whole (h : OfAccount account all)
    (hp : Splits account all (pages.map Prod.snd)) {x : Filed} (hx : x ∈ all)
    (hd : x.2.derivable = true) :
    ∃ t, (Sqlite.new.applyPages pages).threadId x.1 x.2.key = some t ∧
      (deriveThreadAssignments (all.map Prod.snd)).get? x.2.key = some t := by
  obtain ⟨t, hstored, hname⟩ := isName_of_pages h hp hx hd
  have hkeys : ((all.map Prod.snd).map Message.key).Nodup := by
    rw [List.map_map]
    exact h.keys
  obtain ⟨t', hderived, hname'⟩ := derive_isName hkeys (List.mem_map_of_mem hx) hd
  have hset : {m | m ∈ all.map Prod.snd ∧ m.derivable = true} =
      Prod.snd '' {y : Filed | y ∈ all ∧ y.2.derivable = true} := by
    ext m
    constructor
    · rintro ⟨hm, hmd⟩
      obtain ⟨y, hy, rfl⟩ := List.mem_map.mp hm
      exact ⟨y, ⟨hy, hmd⟩, rfl⟩
    · rintro ⟨y, ⟨hy, hyd⟩, rfl⟩
      exact ⟨List.mem_map_of_mem hy, hyd⟩
  have hcomp : component (fun m id => id ∈ m.touchedIds) (Prod.snd '' {y : Filed | y ∈ all ∧ y.2.derivable = true}) x.2 =
      Prod.snd '' component Filed.Touches {y | y ∈ all ∧ y.2.derivable = true} x :=
    component_image (fun _ _ _ => Iff.rfl) ⟨hx, hd⟩
  rw [hset, hcomp] at hname'
  have hsame := (isName_image (fun _ _ _ => Iff.rfl) fun _ _ => rfl).mp hname'
  exact ⟨t, hstored, hname.unique hsame ▸ hderived⟩

theorem named_of_pages (h : OfAccount account all) (hp : Splits account all (pages.map Prod.snd)) :
    Named Filed.Touches Filed.Owns Filed.key {x | x ∈ all ∧ x.2.derivable = true}
      fun x => (Sqlite.new.applyPages pages).threadId x.1 x.2.key :=
  fun _ hx => isName_of_pages h hp hx.1 hx.2

/-- Once all pages are in, two messages are on one thread exactly when a chain of shared message ids connects them. -/
theorem one_thread_iff_joined (h : OfAccount account all) (hp : Splits account all (pages.map Prod.snd)) {x y : Filed}
    (hx : x ∈ all) (hxd : x.2.derivable = true) (hy : y ∈ all) (hyd : y.2.derivable = true) :
    (Sqlite.new.applyPages pages).threadId x.1 x.2.key = (Sqlite.new.applyPages pages).threadId y.1 y.2.key ↔
      Joined Filed.Touches {m | m ∈ all ∧ m.2.derivable = true} x y := by
  have hnamed := named_of_pages h hp
  constructor
  · exact hnamed.joined_of_eq h.distinguished (fun _ hm => hm.1) ⟨hx, hxd⟩ ⟨hy, hyd⟩
  · exact hnamed.eq_of_joined ⟨hx, hxd⟩ ⟨hy, hyd⟩

end Runs

namespace Sample

def inbox : SyncScope := .imapMailbox "a" "INBOX"

def sent : SyncScope := .imapMailbox "a" "Sent"

def original : Message :=
  ⟨⟨"inbox-1", by decide⟩, ⟨[⟨"a-orig@h", by decide⟩], [], []⟩, none⟩

def reply : Message :=
  ⟨⟨"sent-1", by decide⟩, ⟨[⟨"b-reply@h", by decide⟩], [], [⟨"a-orig@h", by decide⟩]⟩, none⟩

def asFound : HashOrder (List MailRow) := ⟨id, fun _ => .refl _⟩

/-- The reply lands a page before the message it answers. -/
def replyFirst : List (HashOrder (List MailRow) × Page) :=
  [(asFound, ⟨sent, [], [reply]⟩), (asFound, ⟨inbox, [], [original]⟩)]

def mailbox : List Filed := [(inbox, original), (sent, reply)]

theorem mailbox_ofAccount : OfAccount "a" mailbox where
  account := by decide
  keys := by decide
  disjoint := by
    show ∀ x ∈ mailbox, ∀ y ∈ mailbox, y.2.key ∉ x.2.envelope.messageId
    decide
  provided x hx t ht := by
    have hnone : ∀ x ∈ mailbox, x.2.thread = none := by decide
    rw [hnone x hx] at ht
    simp at ht

theorem replyFirst_splits : Splits "a" mailbox (replyFirst.map Prod.snd) where
  account := by decide
  removed := by decide
  filed := by decide
  cover := by decide

end Sample

open Sample in
theorem incremental_eq_whole_replyFirst : ∃ t, (Sqlite.new.applyPages replyFirst).threadId sent reply.key = some t ∧
      (deriveThreadAssignments (mailbox.map Prod.snd)).get? reply.key = some t := by
  have hreply : (sent, reply) ∈ mailbox := by decide
  exact incremental_eq_whole mailbox_ofAccount replyFirst_splits hreply rfl

open Sample in
theorem one_thread_iff_joined_reply :
    (Sqlite.new.applyPages replyFirst).threadId sent reply.key = (Sqlite.new.applyPages replyFirst).threadId inbox original.key ↔
      Joined Filed.Touches {m | m ∈ mailbox ∧ m.2.derivable = true} (sent, reply) (inbox, original) := by
  have hreply : (sent, reply) ∈ mailbox := by decide
  have horiginal : (inbox, original) ∈ mailbox := by decide
  exact one_thread_iff_joined mailbox_ofAccount replyFirst_splits hreply rfl horiginal rfl

end Threading
end SyncEngine
