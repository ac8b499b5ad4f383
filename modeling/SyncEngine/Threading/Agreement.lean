import SyncEngine.Threading.MemPage
import SyncEngine.Threading.SqlitePage

/-!
# When the two stores thread alike

The durable store reads the threads afresh for every component of a page.  The reference store decides all of them
against one reading, so a component does not see what another has just moved.  The two come out alike as long as two
components that reach a common thread, or one of which would be named like a thread the other reaches, are named alike
to begin with.
-/

namespace SyncEngine
namespace Threading

/-- The thread a batch is put on when it is decided against the view `u`. -/
def NamedIn (u : View) (batch : Set Row) (t : Text) : Prop :=
  IsName u.owns Prod.snd (u.moved batch) t

/-- No batch decides differently for having seen another, nor for the rows outside the graph
that stand under a thread it reaches. -/
structure Compatible (u : View) (batches : List (Set Row)) : Prop where
  outside : ∀ B ∈ batches, ∀ t, NamedIn u B t →
    IsName u.owns Prod.snd (B ∪ u.under (u.reached B)) t
  agree : ∀ B ∈ batches, ∀ B' ∈ batches, B ≠ B' → ∀ t t', NamedIn u B t → NamedIn u B' t' →
    (u.reached B ∩ u.reached B').Nonempty ∨ t ∈ u.reached B' →
    t = t' ∧ (t ∈ u.reached B' ∨ u.under {t} = ∅)

/-- The batches of one page: of graphed rows, and no two sharing an id. -/
structure Apart (u : View) (batches : List (Set Row)) : Prop where
  graphed : ∀ B ∈ batches, ∀ r ∈ B, r ∈ u.graphed
  apart : ∀ B ∈ batches, ∀ B' ∈ batches, B ≠ B' → ∀ r ∈ B, ∀ r' ∈ B', ¬ Shares u.touches r r'

/-- The view after some batches: what a batch moves is on its name, and nothing else moved. -/
structure Placed (u : View) (placed : List (Set Row)) (v : View) : Prop where
  touches : v.touches = u.touches
  owns : v.owns = u.owns
  moved : ∀ B ∈ placed, ∀ t, NamedIn u B t → ∀ r ∈ u.moved B, v.thread r = some t
  kept : ∀ r, (∀ B ∈ placed, r ∉ u.moved B) → v.thread r = u.thread r

section Steps

variable {u v v' : View} {batches placed : List (Set Row)} {B B' : Set Row} {t t' : Text} {r : Row}

theorem shares_self (h : r ∈ u.graphed) : Shares u.touches r r := by
  obtain ⟨id, hid⟩ := h
  exact ⟨id, hid, hid⟩

theorem placed_nil (u : View) : Placed u [] u := ⟨rfl, rfl, fun _ h => absurd h List.not_mem_nil, fun _ _ => rfl⟩

section Page

variable (hc : Compatible u batches) (ha : Apart u batches)
include ha

theorem reached_of_moved (hB : B ∈ batches) (hr : r ∈ u.moved B) {s : Text}
    (hs : u.thread r = some s) : s ∈ u.reached B := by
  rcases hr with hr | ⟨-, s', hs', heq⟩
  · exact ⟨r, hs, r, hr, shares_self (ha.graphed B hB r hr)⟩
  · rw [hs, Option.some.injEq] at heq
    exact heq ▸ hs'

theorem reached_of_overlap (hB : B ∈ batches) (hB' : B' ∈ batches) (hne : B ≠ B')
    (hr : r ∈ u.moved B) (hr' : r ∈ u.moved B') : (u.reached B ∩ u.reached B').Nonempty := by
  have hthread : ∃ s, u.thread r = some s := by
    rcases hr with hin | ⟨-, s, -, hs⟩
    · rcases hr' with hin' | ⟨-, s, -, hs⟩
      · exact absurd (shares_self (ha.graphed B hB r hin)) (ha.apart B hB B' hB' hne r hin r hin')
      · exact ⟨s, hs⟩
    · exact ⟨s, hs⟩
  obtain ⟨s, hs⟩ := hthread
  exact ⟨s, reached_of_moved ha hB hr hs, reached_of_moved ha hB' hr' hs⟩

include hc

theorem name_eq_of_overlap (hB : B ∈ batches) (hB' : B' ∈ batches) (hr : r ∈ u.moved B)
    (hr' : r ∈ u.moved B') (ht : NamedIn u B t) (ht' : NamedIn u B' t') : t = t' := by
  by_cases hne : B = B'
  · subst hne
    exact ht.unique ht'
  · exact (hc.agree B hB B' hB' hne t t' ht ht' (Or.inl (reached_of_overlap ha hB hB' hne hr hr'))).1

theorem Placed.put (hp : Placed u placed v) (hsub : ∀ B ∈ placed, B ∈ batches) (hB : B ∈ batches)
    (ht : NamedIn u B t) : Placed u (placed ++ [B]) (v.put (u.moved B) t) := by
  refine ⟨hp.touches, hp.owns, ?_, ?_⟩
  · intro B' hB' t' ht' r hr
    by_cases hin : r ∈ u.moved B
    · rw [View.put_of_mem hin]
      rcases List.mem_append.mp hB' with hB' | hB'
      · rw [name_eq_of_overlap hc ha hB (hsub B' hB') hin hr ht ht']
      · rw [List.mem_singleton.mp hB'] at ht'
        rw [ht.unique ht']
    · rw [View.put_of_not_mem hin]
      rcases List.mem_append.mp hB' with hB' | hB'
      · exact hp.moved B' hB' t' ht' r hr
      · rw [List.mem_singleton.mp hB'] at hr
        exact absurd hr hin
  · intro r hno
    have hin : r ∉ u.moved B := hno B (List.mem_append_right _ List.mem_cons_self)
    rw [View.put_of_not_mem hin]
    exact hp.kept r fun B' hB' => hno B' (List.mem_append_left _ hB')

theorem Placed.assignsFrom {rest : List (Set Row)} (hp : Placed u placed v)
    (hsub : ∀ B ∈ placed, B ∈ batches) (hrest : ∀ B ∈ rest, B ∈ batches)
    (h : AssignsFrom u v rest v') : Placed u (placed ++ rest) v' := by
  induction h generalizing placed with
  | nil v =>
    rw [List.append_nil]
    exact hp
  | cons hname _ ih =>
    rename_i B rest _ _
    have hB := hrest B List.mem_cons_self
    rw [List.append_cons]
    refine ih (hp.put hc ha hsub hB hname) ?_ fun B hB => hrest B (List.mem_cons_of_mem _ hB)
    intro B' hB'
    rcases List.mem_append.mp hB' with hB' | hB'
    · exact hsub B' hB'
    · exact List.mem_singleton.mp hB' ▸ hB

end Page

/-! ## The durable store's step -/

section Afresh

variable (hc : Compatible u batches) (ha : Apart u batches)
  (howns : ∀ r id, u.owns r id → u.touches r id) (hp : Placed u placed v)
  (hsub : ∀ B ∈ placed, B ∈ batches) (hnames : ∀ B ∈ placed, ∃ t, NamedIn u B t)
  (hB : B ∈ batches) (hfresh : B ∉ placed) {n : Text} (hn : NamedIn u B n)

include hc ha hp hsub hnames hB hfresh hn

theorem reached_placed {s : Text} (hs : s ∈ v.reached B) : s ∈ u.reached B ∨
    s = n ∧ ∃ B' ∈ placed, (u.reached B' ∩ u.reached B).Nonempty ∧ NamedIn u B' n := by
  obtain ⟨m, hm, b, hb, hshare⟩ := hs
  rw [hp.touches] at hshare
  by_cases hmoved : ∃ B' ∈ placed, m ∈ u.moved B'
  · obtain ⟨B', hB', hin⟩ := hmoved
    obtain ⟨t', ht'⟩ := hnames B' hB'
    have hne : B' ≠ B := fun heq => hfresh (heq ▸ hB')
    have hthread : v.thread m = some t' := hp.moved B' hB' t' ht' m hin
    have heq : s = t' := Option.some.inj (hm.symm.trans hthread)
    rcases hin with hin | ⟨-, s₀, hs₀, hms₀⟩
    · exact absurd hshare (ha.apart B' (hsub B' hB') B hB hne m hin b hb)
    · have hover : (u.reached B' ∩ u.reached B).Nonempty := ⟨s₀, hs₀, m, hms₀, b, hb, hshare⟩
      have hname := (hc.agree B' (hsub B' hB') B hB hne t' n ht' hn (Or.inl hover)).1
      exact Or.inr ⟨heq.trans hname, B', hB', hover, hname ▸ ht'⟩
  · have hkept := hp.kept m fun B' hB' hin => hmoved ⟨B', hB', hin⟩
    exact Or.inl ⟨m, hkept.symm.trans hm, b, hb, hshare⟩

theorem under_placed (hr : r ∈ v.under (v.reached B)) :
    (n ∈ v.reached B ∧ ∃ B' ∈ placed, NamedIn u B' n ∧ r ∈ u.moved B') ∨
    (∀ B' ∈ placed, r ∉ u.moved B') ∧ r ∈ u.under (u.reached B) := by
  obtain ⟨s, hs, hrs⟩ := hr
  have hreach := reached_placed hc ha hp hsub hnames hB hfresh hn hs
  by_cases hmoved : ∃ B' ∈ placed, r ∈ u.moved B'
  · obtain ⟨B', hB', hin⟩ := hmoved
    obtain ⟨t', ht'⟩ := hnames B' hB'
    have hne : B' ≠ B := fun heq => hfresh (heq ▸ hB')
    have heq : s = t' := Option.some.inj (hrs.symm.trans (hp.moved B' hB' t' ht' r hin))
    have hname : s = n := by
      rcases hreach with hold | ⟨hsn, -⟩
      · rw [heq]
        exact (hc.agree B' (hsub B' hB') B hB hne t' n ht' hn (Or.inr (heq ▸ hold))).1
      · exact hsn
    subst hname
    exact Or.inl ⟨hs, B', hB', heq ▸ ht', hin⟩
  · have hno : ∀ B' ∈ placed, r ∉ u.moved B' := fun B' hB' hin => hmoved ⟨B', hB', hin⟩
    have hru : u.thread r = some s := (hp.kept r hno).symm.trans hrs
    refine Or.inr ⟨hno, s, ?_, hru⟩
    rcases hreach with hold | ⟨rfl, B', hB', hover, hn'⟩
    · exact hold
    · have hne : B' ≠ B := fun heq => hfresh (heq ▸ hB')
      rcases (hc.agree B' (hsub B' hB') B hB hne s s hn' hn (Or.inl hover)).2 with hin | hnone
      · exact hin
      · have hmem : r ∈ u.under {s} := ⟨s, rfl, hru⟩
        rw [hnone] at hmem
        exact absurd hmem (Set.notMem_empty r)

omit hc hn hfresh hB in
theorem moved_placed (hr : r ∈ u.moved B) : r ∈ v.moved B := by
  rcases hr with hr | ⟨hg, s, ⟨m, hm, b, hb, hshare⟩, hrs⟩
  · exact Or.inl hr
  · have hmg : m ∈ u.graphed := by
      obtain ⟨id, hid, -⟩ := hshare
      exact ⟨id, hid⟩
    have hsame : ∃ s', v.thread r = some s' ∧ v.thread m = some s' := by
      by_cases hreach : ∃ B' ∈ placed, s ∈ u.reached B'
      · obtain ⟨B', hB', hs⟩ := hreach
        obtain ⟨t', ht'⟩ := hnames B' hB'
        exact ⟨t', hp.moved B' hB' t' ht' r (Or.inr ⟨hg, s, hs, hrs⟩), hp.moved B' hB' t' ht' m (Or.inr ⟨hmg, s, hs, hm⟩)⟩
      · have hkept : ∀ r', u.thread r' = some s → v.thread r' = some s := by
          intro r' hr'
          refine (hp.kept r' fun B' hB' hin => ?_).trans hr'
          exact hreach ⟨B', hB', reached_of_moved ha (hsub B' hB') hin hr'⟩
        exact ⟨s, hkept r hrs, hkept m hm⟩
    obtain ⟨s', hrs', hms'⟩ := hsame
    refine Or.inr ⟨?_, s', ⟨m, hms', b, hb, ?_⟩, hrs'⟩
    · rw [View.graphed, hp.touches]
      exact hg
    · rw [hp.touches]
      exact hshare

include howns

theorem name_placed (hname : IsName v.owns Prod.snd (B ∪ v.under (v.reached B)) t) : t = n := by
  let outside : Set Row := {r | r ∉ u.graphed ∧ r ∈ u.under (u.reached B)}
  let inside : Set Row := {r | r ∈ B ∪ v.under (v.reached B) ∧ r ∈ outside}
  have hbare : ∀ r ∈ outside, ∀ id, ¬ u.owns r id := fun r hr id hid => hr.1 ⟨id, howns r id hid⟩
  have hall : u.moved B ∪ outside = B ∪ u.under (u.reached B) := by
    ext r
    constructor
    · rintro ((hr | ⟨-, hr⟩) | ⟨-, hr⟩)
      · exact Or.inl hr
      · exact Or.inr hr
      · exact Or.inr hr
    · rintro (hr | hr)
      · exact Or.inl (Or.inl hr)
      · by_cases hg : r ∈ u.graphed
        · exact Or.inl (Or.inr ⟨hg, hr⟩)
        · exact Or.inr ⟨hg, hr⟩
  have hown : IsName u.owns Prod.snd (u.moved B ∪ inside) n := by
    refine IsName.union_of_subset hn ?_ hbare fun r hr => hr.2
    rw [hall]
    exact hc.outside B hB n hn
  let family : Set (Set Row) := insert (u.moved B ∪ inside)
    {S | n ∈ v.reached B ∧ ∃ B' ∈ placed, NamedIn u B' n ∧ S = u.moved B'}
  have hfamily : IsName u.owns Prod.snd (⋃₀ family) n := by
    refine IsName.sUnion ⟨_, Set.mem_insert _ _⟩ ?_
    rintro S (rfl | ⟨-, B', -, hn', rfl⟩)
    · exact hown
    · exact hn'
  have hset : ⋃₀ family = B ∪ v.under (v.reached B) := by
    ext r
    constructor
    · rintro ⟨S, rfl | ⟨hreach, B', hB', hn', rfl⟩, hr⟩
      · rcases hr with hr | hr
        · rcases moved_placed ha hp hsub hnames hr with hr | ⟨-, hr⟩
          · exact Or.inl hr
          · exact Or.inr hr
        · exact hr.1
      · exact Or.inr ⟨n, hreach, hp.moved B' hB' n hn' r hr⟩
    · intro hr
      rcases hr with hin | hunder
      · exact ⟨_, Set.mem_insert _ _, Or.inl (Or.inl hin)⟩
      · rcases under_placed hc ha hp hsub hnames hB hfresh hn hunder with
          ⟨hreach, B', hB', hn', hr⟩ | ⟨-, hold⟩
        · exact ⟨_, Or.inr ⟨hreach, B', hB', hn', rfl⟩, hr⟩
        · refine ⟨_, Set.mem_insert _ _, ?_⟩
          by_cases hg : r ∈ u.graphed
          · exact Or.inl (Or.inr ⟨hg, hold⟩)
          · exact Or.inr ⟨Or.inr hunder, hg, hold⟩
  rw [hp.owns, ← hset] at hname
  exact hname.unique hfamily

theorem Placed.assigned (hname : IsName v.owns Prod.snd (B ∪ v.under (v.reached B)) t) :
    Placed u (placed ++ [B]) (v.assigned B t) := by
  obtain rfl : t = n := name_placed hc ha howns hp hsub hnames hB hfresh hn hname
  refine ⟨hp.touches, hp.owns, ?_, ?_⟩
  · intro B' hB' t' ht' r hr
    rcases List.mem_append.mp hB' with hB' | hB'
    · by_cases hin : r ∈ v.moved B
      · rw [View.assigned_of_mem hin]
        have heq : t = t' := by
          rcases hin with hin | ⟨-, hin⟩
          · exact name_eq_of_overlap hc ha hB (hsub B' hB') (Or.inl hin) hr hn ht'
          · have hthread := hp.moved B' hB' t' ht' r hr
            rcases under_placed hc ha hp hsub hnames hB hfresh hn hin with
              ⟨-, B'', hB'', hn'', hr''⟩ | ⟨hno, -⟩
            · exact Option.some.inj ((hp.moved B'' hB'' t hn'' r hr'').symm.trans hthread)
            · exact absurd hr (hno B' hB')
        rw [heq]
      · rw [View.assigned_of_not_mem hin]
        exact hp.moved B' hB' t' ht' r hr
    · rw [List.mem_singleton.mp hB'] at ht' hr
      rw [View.assigned_of_mem (moved_placed ha hp hsub hnames hr), hn.unique ht']
  · intro r hno
    have hout : r ∉ v.moved B := by
      have hself : r ∉ u.moved B := hno B (List.mem_append_right _ List.mem_cons_self)
      rintro (hin | ⟨hg, hin⟩)
      · exact hself (Or.inl hin)
      · rw [View.graphed, hp.touches] at hg
        rcases under_placed hc ha hp hsub hnames hB hfresh hn hin with
          ⟨-, B', hB', -, hr⟩ | ⟨-, hold⟩
        · exact hno B' (List.mem_append_left _ hB') hr
        · exact hself (Or.inr ⟨hg, hold⟩)
    rw [View.assigned_of_not_mem hout]
    exact hp.kept r fun B' hB' => hno B' (List.mem_append_left _ hB')

end Afresh

theorem Placed.assigns {rest : List (Set Row)} (hc : Compatible u batches) (ha : Apart u batches)
    (howns : ∀ r id, u.owns r id → u.touches r id)
    (hnames : ∀ B ∈ batches, ∃ t, NamedIn u B t) (hp : Placed u placed v)
    (hsub : ∀ B ∈ placed, B ∈ batches) (hrest : ∀ B ∈ rest, B ∈ batches)
    (hnodup : (placed ++ rest).Nodup) (h : Assigns v rest v') : Placed u (placed ++ rest) v' := by
  induction h generalizing placed with
  | nil v =>
    rw [List.append_nil]
    exact hp
  | cons hname _ ih =>
    rename_i v _ B rest t _
    have hB := hrest B List.mem_cons_self
    obtain ⟨n, hn⟩ := hnames B hB
    have hfresh : B ∉ placed := fun hin =>
      (List.nodup_append.mp hnodup).2.2 B hin B List.mem_cons_self rfl
    rw [List.append_cons] at hnodup ⊢
    refine ih (hp.assigned hc ha howns hsub (fun B hB => hnames B (hsub B hB)) hB hfresh hn hname)
      ?_ (fun B hB => hrest B (List.mem_cons_of_mem _ hB)) hnodup
    intro B' hB'
    rcases List.mem_append.mp hB' with hB' | hB'
    · exact hsub B' hB'
    · exact List.mem_singleton.mp hB' ▸ hB

end Steps

theorem AssignsFrom.named {u v v' : View} {batches : List (Set Row)}
    (h : AssignsFrom u v batches v') : ∀ B ∈ batches, ∃ t, NamedIn u B t := by
  induction h with
  | nil v => exact fun _ h => absurd h List.not_mem_nil
  | cons hname _ ih =>
    intro B hB
    rcases List.mem_cons.mp hB with rfl | hB
    · exact ⟨_, hname⟩
    · exact ih B hB

theorem Placed.eq {u v w : View} {batches batches' : List (Set Row)}
    (hsame : ∀ B, B ∈ batches ↔ B ∈ batches') (hnames : ∀ B ∈ batches, ∃ t, NamedIn u B t)
    (hv : Placed u batches v) (hw : Placed u batches' w) : v = w := by
  refine View.ext_of (fun r => ?_) (fun r id => ?_) fun r id => ?_
  · by_cases hr : ∃ B ∈ batches, r ∈ u.moved B
    · obtain ⟨B, hB, hin⟩ := hr
      obtain ⟨t, ht⟩ := hnames B hB
      rw [hv.moved B hB t ht r hin, hw.moved B ((hsame B).mp hB) t ht r hin]
    · rw [hv.kept r fun B hB hin => hr ⟨B, hB, hin⟩, hw.kept r fun B hB hin => hr ⟨B, (hsame B).mpr hB, hin⟩]
  · rw [hv.touches, hw.touches]
  · rw [hv.owns, hw.owns]

theorem assigns_eq_assignsFrom {u v w : View} {batches fresh once : List (Set Row)}
    (hc : Compatible u batches) (ha : Apart u batches)
    (howns : ∀ r id, u.owns r id → u.touches r id) (hnodup : fresh.Nodup)
    (hfresh : ∀ B, B ∈ fresh ↔ B ∈ batches) (honce : ∀ B, B ∈ once ↔ B ∈ batches)
    (hv : Assigns u fresh v) (hw : AssignsFrom u u once w) : v = w := by
  have hnames : ∀ B ∈ batches, ∃ t, NamedIn u B t := fun B hB => hw.named B ((honce B).mpr hB)
  have hplaced : Placed u fresh v := (placed_nil u).assigns hc ha howns hnames
    (fun _ h => absurd h List.not_mem_nil) (fun B hB => (hfresh B).mp hB) hnodup hv
  have hplaced' : Placed u once w := (placed_nil u).assignsFrom hc ha
    (fun _ h => absurd h List.not_mem_nil) (fun B hB => (honce B).mp hB) hw
  refine Placed.eq (fun B => ?_) (fun B hB => hnames B ((hfresh B).mp hB)) hplaced hplaced'
  rw [hfresh, honce]

end Threading
end SyncEngine
