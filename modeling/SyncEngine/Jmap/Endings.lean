import Mathlib
import SyncEngine.Jmap.Walk
import SyncEngine.Library.Fallible

/-!
# When a pass ends

A page that brings nothing new and is not the last counts as idle, and idle pages are limited, but a page reached by a
step back raises the limit.  A delta stops where a page repeats the state it was asked from, and at no other state.
So a pass ends where it steps back far, and is named a state it has asked from, only so many times.
-/

namespace SyncEngine
namespace Jmap

variable {T : Type}

/-! ## What an answer names -/

namespace Answer

def NamesId (answer : Answer T) (id : ProviderKey) : Prop :=
  match answer with
  | .page p => ∃ ids, p.ids = .ok ids ∧ id ∈ ids
  | .changes c => ∃ diff, c.changes = .ok diff ∧ (id ∈ diff.created ∨ id ∈ diff.updated ∨ id ∈ diff.destroyed)
  | _ => False

def NamesState (answer : Answer T) (state : SyncState) : Prop :=
  match answer with
  | .page p => p.queryState = some state ∨ ∃ got, p.got = some got ∧ got.state = some state
  | .changes c => ∃ diff, c.changes = .ok diff ∧ diff.newState = state
  | _ => False

end Answer

/-- Over a whole run a server names finitely many ids and states. -/
structure FinitelyNamed (answers : ℕ → Answer T) : Prop where
  ids : {id | ∃ k, (answers k).NamesId id}.Finite
  states : {state | ∃ k, (answers k).NamesState state}.Finite

/-! ## What a pass may do too often -/

def Step.asking : Step → Option Asking
  | .walking a => some a
  | .listing _ _ a => some a
  | _ => none

def Step.since : Step → Option SyncState
  | .delta _ since => some since
  | _ => none

def FarBack (s : Step) (answer : Answer T) : Prop :=
  ∃ a n more p, s.asking = some a ∧ a.anchor = .back n more ∧ a.walk.served ≤ n ∧ answer = .page p

def goesOnFrom : Answer T → Option SyncState
  | .changes c =>
    match c.changes with
    | .ok diff => if diff.hasMore then some diff.newState else none
    | .error _ => none
  | _ => none

/-- The state asked from with the request `k`, where it asks for a delta. -/
def MemberFetch.sinceAt (f : MemberFetch) (answers : ℕ → Answer T) (cursor : Option SyncState) (k : ℕ) :
    Option SyncState :=
  match after f.next answers (f.start cursor) k with
  | .inl s => s.since
  | .inr _ => none

def pagedSinceAt (answers : ℕ → Answer T) (since : SyncState) (k : ℕ) : Option SyncState :=
  match after pagedDelta answers (.inl since) k with
  | .inl since => some since
  | .inr _ => none

/-! ## The measure of a walk -/

/-- Lexicographic, the first number counting most. -/
abbrev Four : Type := ℕ × ℕ × ℕ × ℕ

def fourLt : Four → Four → Prop := Prod.Lex (· < ·) (Prod.Lex (· < ·) (Prod.Lex (· < ·) (· < ·)))

theorem fourLt_wf : WellFounded fourLt :=
  WellFounded.prod_lex Nat.lt_wfRel.wf (WellFounded.prod_lex Nat.lt_wfRel.wf (WellFounded.prod_lex Nat.lt_wfRel.wf Nat.lt_wfRel.wf))

/-- The anchors still to be tried for a page. -/
def Anchor.left : Anchor → Nat
  | .top => 0
  | .back _ more => more.length + 1

/-- The ids not seen yet, the restarts, the idle pages and the anchors that are left. -/
def Asking.rank (ids : Finset ProviderKey) (a : Asking) : Four :=
  ((ids \ a.walk.seen).card, restartsAllowed - a.walk.restarts, a.walk.reread + idlePages + 1 - a.walk.idle, a.anchor.left)

section Walking

variable {w w' : Walk} {a a' : Asking} {backs : List Nat} {ids : Finset ProviderKey} {page : WalkPage T} {p : QueryPage T}

theorem stepBack_eq_ok (h : stepBack w backs = .ok a) : (∃ n more, backs = n :: more ∧ a = ⟨w, .back n more⟩) ∨
      (w.restarts < restartsAllowed ∧ a.walk.restarts = w.restarts + 1 ∧ a.walk.seen = w.seen) := by
  cases backs with
  | cons n more =>
    obtain rfl := Except.ok.inj h
    exact Or.inl ⟨n, more, rfl, rfl⟩
  | nil =>
    have hif : (if restartsAllowed ≤ w.restarts then Except.error w.unsettled else
      Except.ok (⟨{ w with restarts := w.restarts + 1, reread := w.reread + (w.trail.length / w.served + 1) }, .top⟩ : Asking)) =
        .ok a := h
    by_cases hle : restartsAllowed ≤ w.restarts
    · rw [if_pos hle] at hif
      exact nomatch hif
    · rw [if_neg hle] at hif
      obtain rfl := Except.ok.inj hif
      exact Or.inr ⟨by omega, rfl, rfl⟩

theorem absorb_eq {named : List ProviderKey} {cursor : Option SyncState} {changed : List T} (hids : p.ids = .ok named)
    (hobjects : w.readObjects (named.filter fun id => id ∉ w.seen) (if w.withObjects then p.got else none) =
      .ok (cursor, changed)) :
    w.absorb p =
      if (named.filter fun id => id ∉ w.seen) = [] ∧ (w.extended p named cursor).done = false then
        if w.reread + idlePages < w.idle + 1 then .error w.unsettled
        else .ok ({ w.extended p named cursor with idle := w.idle + 1 },
          ⟨changed, named.filter fun id => id ∉ w.seen, (w.extended p named cursor).total⟩)
      else .ok ({ w.extended p named cursor with
          idle := 0, reread := 0, seen := w.seen ∪ (named.filter fun id => id ∉ w.seen).toFinset },
        ⟨changed, named.filter fun id => id ∉ w.seen, (w.extended p named cursor).total⟩) := by
  unfold Walk.absorb
  rw [hids]
  dsimp only [bind, Except.bind]
  rw [hobjects]
  dsimp only
  split
  · split <;> rfl
  · rfl

theorem absorb_eq_ok (h : w.absorb p = .ok (w', page)) : ∃ named, p.ids = .ok named ∧ w'.restarts = w.restarts ∧
    ((w'.seen = w.seen ∧ w'.idle = w.idle + 1 ∧ w'.reread = w.reread ∧ w.idle + 1 ≤ w.reread + idlePages) ∨
      ((w'.done = true ∨ ∃ id ∈ named, id ∉ w.seen) ∧ ∀ id, id ∈ w'.seen ↔ id ∈ w.seen ∨ id ∈ named)) := by
  have hbind := h
  unfold Walk.absorb at hbind
  obtain ⟨named, hnamed, hbind⟩ := Fallible.bind_eq_ok.mp hbind
  obtain ⟨⟨cursor, changed⟩, hobjects, -⟩ := Fallible.bind_eq_ok.mp hbind
  rw [absorb_eq hnamed hobjects] at h
  refine ⟨named, hnamed, ?_⟩
  by_cases hidle : (named.filter fun id => id ∉ w.seen) = [] ∧ (w.extended p named cursor).done = false
  · rw [if_pos hidle] at h
    by_cases hover : w.reread + idlePages < w.idle + 1
    · rw [if_pos hover] at h
      exact nomatch h
    · rw [if_neg hover] at h
      obtain ⟨rfl, -⟩ := Prod.mk.inj (Except.ok.inj h)
      exact ⟨rfl, Or.inl ⟨rfl, rfl, rfl, by omega⟩⟩
  · rw [if_neg hidle] at h
    obtain ⟨rfl, -⟩ := Prod.mk.inj (Except.ok.inj h)
    refine ⟨rfl, Or.inr ⟨?_, fun id => ?_⟩⟩
    · cases hdone : (w.extended p named cursor).done with
      | true => exact Or.inl rfl
      | false =>
        obtain ⟨id, hid⟩ := List.exists_mem_of_ne_nil _ fun hnil => hidle ⟨hnil, hdone⟩
        obtain ⟨hmem, hfresh⟩ := List.mem_filter.mp hid
        exact Or.inr ⟨id, hmem, by simpa using hfresh⟩
    · show id ∈ w.seen ∪ (named.filter fun id => id ∉ w.seen).toFinset ↔ _
      simp only [Finset.mem_union, List.mem_toFinset, List.mem_filter, decide_eq_true_eq]
      tauto

theorem receive_failed (e : JmapError) : a.receive (.failed e : Answer T) =
    match a.anchor with
    | .back _ more => if e = .method "anchorNotFound" then (stepBack a.walk more).map .inl else .error e
    | .top => .error e := rfl

variable {answer : Answer T}

/-- A page is taken as the walk is, but for what the step back to it is expected to re-read; what is asked
again is the page a step back comes to. -/
theorem receive_cases {result : Asking ⊕ (Walk × WalkPage T)} (h : a.receive answer = .ok result) :
    (∃ n more a', a.anchor = .back n more ∧ stepBack a.walk more = .ok a' ∧ result = .inl a') ∨
    (∃ p taken, answer = .page p ∧
      { a.walk with reread := a.walk.reread + a.anchor.rereads a.walk.served }.absorb p = .ok taken ∧
      result = .inr taken) := by
  cases answer with
  | page p =>
    have hmap : ({ a.walk with reread := a.walk.reread + a.anchor.rereads a.walk.served }.absorb p).map Sum.inr =
        .ok result := h
    cases habsorb : { a.walk with reread := a.walk.reread + a.anchor.rereads a.walk.served }.absorb p with
    | error e =>
      rw [habsorb] at hmap
      exact nomatch hmap
    | ok taken =>
      rw [habsorb] at hmap
      exact .inr ⟨p, taken, rfl, habsorb, (Except.ok.inj hmap).symm⟩
  | objects list => exact nomatch h
  | changes c => exact nomatch h
  | failed e =>
    rw [receive_failed] at h
    cases hanchor : a.anchor with
    | top =>
      rw [hanchor] at h
      exact nomatch h
    | back n more =>
      rw [hanchor] at h
      dsimp only at h
      split at h
      · cases hstep : stepBack a.walk more with
        | error e =>
          rw [hstep] at h
          exact nomatch h
        | ok a' =>
          rw [hstep] at h
          exact .inl ⟨n, more, a', rfl, hstep, (Except.ok.inj h).symm⟩
      · exact nomatch h

theorem receive_again (h : a.receive answer = .ok (.inl a')) :
    ∃ n more, a.anchor = .back n more ∧ stepBack a.walk more = .ok a' := by
  rcases receive_cases h with ⟨n, more, a'', hanchor, hstep, heq⟩ | ⟨p, taken, -, -, heq⟩
  · obtain rfl := Sum.inl.inj heq
    exact ⟨n, more, hanchor, hstep⟩
  · exact nomatch heq

theorem receive_page (h : a.receive answer = .ok (.inr (w, page))) : ∃ p, answer = .page p ∧
      { a.walk with reread := a.walk.reread + a.anchor.rereads a.walk.served }.absorb p = .ok (w, page) := by
  rcases receive_cases h with ⟨n, more, a', -, -, heq⟩ | ⟨p, taken, hanswer, habsorb, heq⟩
  · exact nomatch heq
  · obtain rfl := Sum.inr.inj heq
    exact ⟨p, hanswer, habsorb⟩

theorem fetchPage_eq_ok (h : fetchPage w = .ok a) :
    a.walk = w ∨ (w.restarts < restartsAllowed ∧ a.walk.restarts = w.restarts + 1 ∧ a.walk.seen = w.seen) := by
  unfold fetchPage at h
  by_cases htrail : w.trail = []
  · rw [if_pos htrail] at h
    exact Or.inl (congrArg Asking.walk (Except.ok.inj h)).symm
  · rw [if_neg htrail] at h
    cases stepBack_eq_ok h with
    | inl hfirst =>
      obtain ⟨n, more, -, ha⟩ := hfirst
      exact Or.inl (ha ▸ rfl)
    | inr hrestart => exact Or.inr hrestart

theorem rank_receive_again (h : a.receive answer = .ok (.inl a')) : fourLt (a'.rank ids) (a.rank ids) := by
  obtain ⟨n, more, hanchor, hstep⟩ := receive_again h
  unfold Asking.rank
  cases stepBack_eq_ok hstep with
  | inl hnext =>
    obtain ⟨n', more', hmore, ha'⟩ := hnext
    rw [ha', hanchor, hmore]
    exact .right _ (.right _ (.right _ (Nat.lt_succ_self _)))
  | inr hrestart =>
    obtain ⟨hallowed, hrestarts, hseen⟩ := hrestart
    rw [hseen, hrestarts]
    exact .right _ (.left _ _ (by omega))

theorem rank_receive_page (h : a.receive answer = .ok (.inr (w, page)))
    (hnear : ∀ n more, a.anchor = .back n more → n < a.walk.served) (hnamed : ∀ id, answer.NamesId id → id ∈ ids)
    (hdone : w.done = false) (hnext : fetchPage w = .ok a') : fourLt (a'.rank ids) (a.rank ids) := by
  have hrereads : a.anchor.rereads a.walk.served = 0 := by
    cases hanchor : a.anchor with
    | top => rfl
    | back n more => exact Nat.div_eq_of_lt (hnear n more hanchor)
  obtain ⟨p, rfl, habsorb⟩ := receive_page h
  rw [hrereads, Nat.add_zero] at habsorb
  have habsorb : a.walk.absorb p = .ok (w, page) := habsorb
  obtain ⟨named, hids, hrestarts, hcase⟩ := absorb_eq_ok habsorb
  have hask := fetchPage_eq_ok hnext
  have hseen : a'.walk.seen = w.seen := by
    cases hask with
    | inl hsame => rw [hsame]
    | inr hrestart => exact hrestart.2.2
  unfold Asking.rank
  rw [hseen]
  cases hcase with
  | inl hidle =>
    obtain ⟨hsame, hidle, hreread, hlimit⟩ := hidle
    rw [hsame]
    cases hask with
    | inl hwalk =>
      rw [hwalk, hrestarts, hidle, hreread]
      exact .right _ (.right _ (.left _ _ (by omega)))
    | inr hrestart =>
      obtain ⟨hallowed, hmore, -⟩ := hrestart
      rw [hmore, hrestarts]
      exact .right _ (.left _ _ (by omega))
  | inr hfresh =>
    obtain ⟨hbrings, hmem⟩ := hfresh
    have hid : ∃ id ∈ named, id ∉ a.walk.seen := by
      cases hbrings with
      | inl hlast => exact absurd (hlast.symm.trans hdone) (by decide)
      | inr hid => exact hid
    obtain ⟨id, hidNamed, hidFresh⟩ := hid
    apply Prod.Lex.left
    apply Finset.card_lt_card
    rw [Finset.ssubset_iff_of_subset]
    · refine ⟨id, Finset.mem_sdiff.mpr ⟨hnamed id ⟨named, hids, hidNamed⟩, hidFresh⟩, ?_⟩
      intro hout
      exact (Finset.mem_sdiff.mp hout).2 ((hmem id).mpr (Or.inr hidNamed))
    · intro other hother
      obtain ⟨hall, hout⟩ := Finset.mem_sdiff.mp hother
      exact Finset.mem_sdiff.mpr ⟨hall, fun hin => hout ((hmem other).mpr (Or.inl hin))⟩

end Walking

/-! ## The measure of a pass -/

section Stages

variable {w : Walk} {s : Step} {n : Nat} {ids : Finset ProviderKey}

/-- The kinds of requests, in the order a pass makes them: a listing may be taken again. -/
def Step.stage : Step → Nat
  | .delta _ _ => 3 + listings
  | .walking _ => 2 + listings
  | .listing _ more _ => 2 + more
  | .getting _ _ _ => 1

/-- How far a pass is from the end, with `unasked` states that a delta has not asked from yet. -/
def Step.rank (ids : Finset ProviderKey) (unasked : Nat) : Step → Nat × Four
  | s@(.delta _ _) => (s.stage, unasked, 0, 0, 0)
  | s@(.walking a) => (s.stage, a.rank ids)
  | s@(.listing _ _ a) => (s.stage, a.rank ids)
  | s@(.getting _ _ more) => (s.stage, more.length, 0, 0, 0)

def rankLt : Nat × Four → Nat × Four → Prop := Prod.Lex (· < ·) fourLt

theorem rankLt_wf : WellFounded rankLt := WellFounded.prod_lex Nat.lt_wfRel.wf fourLt_wf

theorem rank_fst (ids : Finset ProviderKey) (unasked : Nat) (s : Step) : (s.rank ids unasked).1 = s.stage := by
  cases s <;> rfl

theorem rankLt_of_stage {s' : Step} {unasked unasked' : Nat} (h : s'.stage < s.stage) :
    rankLt (s'.rank ids unasked') (s.rank ids unasked) := by
  rw [← rank_fst ids unasked' s', ← rank_fst ids unasked s] at h
  exact Prod.Lex.left _ _ h

theorem finish_ne : w.finish ≠ .inl s := by
  unfold Walk.finish
  split <;> exact nofun

theorem get_stage {more : List (List ProviderKey)} (h : w.get more = .inl s) : s.stage = 1 := by
  cases more with
  | nil => exact absurd h finish_ne
  | cons chunk more =>
    obtain rfl := Sum.inl.inj h
    rfl

theorem list_stage (h : w.list n = .inl s) : s.stage < 2 + n := by
  cases n with
  | zero => exact nomatch h
  | succ n =>
    obtain rfl := Sum.inl.inj h
    exact Nat.add_lt_add_left (Nat.lt_succ_self n) 2

theorem settle_stage (h : w.settle = .inl s) : s.stage < 2 + listings := by
  unfold Walk.settle at h
  by_cases hone : w.pages ≤ 1
  · rw [if_pos hone] at h
    exact absurd h finish_ne
  · rw [if_neg hone] at h
    exact list_stage h

theorem listed_stage {result : Except JmapError Walk} (h : w.listed n result = .inl s) : s.stage < 2 + n := by
  cases result with
  | error e =>
    unfold Walk.listed at h
    dsimp only at h
    split at h
    · exact list_stage h
    · exact nomatch h
  | ok listing =>
    unfold Walk.listed at h
    dsimp only at h
    split at h
    · exact list_stage h
    · rw [get_stage h]
      omega

end Stages

/-! ## Every answer -/

section Progress

variable {f : MemberFetch} {s s' : Step} {answer : Answer T} {ids : Finset ProviderKey} {unasked unasked' : Nat}

variable {since : SyncState}

theorem deltaPage_eq_ok {diff : Changes} (h : MemberFetch.deltaPage since answer = .ok diff) :
    ∃ c, answer = .changes c ∧ c.changes = .ok diff := by
  cases answer with
  | changes c =>
    unfold MemberFetch.deltaPage at h
    obtain ⟨diff', hdiff, h⟩ := Fallible.bind_eq_ok.mp h
    split at h
    · exact nomatch h
    · obtain ⟨_, -, h⟩ := Fallible.bind_eq_ok.mp h
      obtain ⟨_, -, h⟩ := Fallible.bind_eq_ok.mp h
      exact ⟨c, rfl, (Except.ok.inj h) ▸ hdiff⟩
  | page p => exact nomatch h
  | objects list => exact nomatch h
  | failed e => exact nomatch h

theorem next_delta {first : Bool} (h : f.next (.delta first since) answer = .inl s') :
    (∃ state, goesOnFrom answer = some state ∧ answer.NamesState state ∧ s' = .delta false state) ∨
      s'.stage = 2 + listings := by
  unfold MemberFetch.next at h
  dsimp only at h
  cases hpage : MemberFetch.deltaPage since answer with
  | ok diff =>
    rw [hpage] at h
    dsimp only at h
    obtain ⟨c, rfl, hdiff⟩ := deltaPage_eq_ok hpage
    split at h
    · rename_i hmore
      refine Or.inl ⟨diff.newState, ?_, ⟨diff, hdiff, rfl⟩, (Sum.inl.inj h).symm⟩
      unfold goesOnFrom
      dsimp only
      rw [hdiff]
      exact if_pos hmore
    · exact nomatch h
  | error e =>
    rw [hpage] at h
    dsimp only at h
    split at h
    · split at h
      · obtain rfl := Sum.inl.inj h
        exact Or.inr rfl
      · exact nomatch h
    · exact nomatch h

variable {a : Asking}

theorem next_walking (h : f.next (.walking a) answer = .inl s') (hnear : ¬ FarBack (.walking a) answer)
    (hnamed : ∀ id, answer.NamesId id → id ∈ ids) :
    rankLt (s'.rank ids unasked') ((Step.walking a).rank ids unasked) := by
  unfold MemberFetch.next at h
  dsimp only at h
  cases hreceive : a.receive answer with
  | error e =>
    rw [hreceive] at h
    exact nomatch h
  | ok result =>
    rw [hreceive] at h
    cases result with
    | inl a' =>
      obtain rfl := Sum.inl.inj h
      exact .right _ (rank_receive_again hreceive)
    | inr taken =>
      obtain ⟨w, page⟩ := taken
      dsimp only at h
      cases hdone : w.done with
      | true =>
        rw [hdone] at h
        exact rankLt_of_stage (settle_stage h)
      | false =>
        rw [hdone] at h
        cases hnext : fetchPage w with
        | error e =>
          rw [hnext] at h
          exact nomatch h
        | ok a' =>
          rw [hnext] at h
          obtain rfl := Sum.inl.inj h
          refine .right _ (rank_receive_page hreceive ?_ hnamed hdone hnext)
          intro n more hanchor
          obtain ⟨p, hp, -⟩ := receive_page hreceive
          by_contra hfar
          exact hnear ⟨a, n, more, p, rfl, hanchor, by omega, hp⟩

variable {w : Walk}

theorem next_listing {n : Nat} (h : f.next (.listing w n a) answer = .inl s')
    (hnear : ¬ FarBack (.listing w n a) answer) (hnamed : ∀ id, answer.NamesId id → id ∈ ids) :
    rankLt (s'.rank ids unasked') ((Step.listing w n a).rank ids unasked) := by
  unfold MemberFetch.next at h
  dsimp only at h
  cases hreceive : a.receive answer with
  | error e =>
    rw [hreceive] at h
    exact rankLt_of_stage (listed_stage h)
  | ok result =>
    rw [hreceive] at h
    cases result with
    | inl a' =>
      obtain rfl := Sum.inl.inj h
      exact .right _ (rank_receive_again hreceive)
    | inr taken =>
      obtain ⟨l, page⟩ := taken
      dsimp only at h
      cases hdone : l.done with
      | true =>
        rw [hdone] at h
        have hlisted : w.listed n (.ok l) = .inl s' := h
        exact rankLt_of_stage (listed_stage hlisted)
      | false =>
        rw [hdone] at h
        cases hnext : fetchPage l with
        | error e =>
          rw [hnext] at h
          have hlisted : w.listed n (.error e) = .inl s' := h
          exact rankLt_of_stage (listed_stage hlisted)
        | ok a' =>
          rw [hnext] at h
          obtain rfl := Sum.inl.inj h
          refine .right _ (rank_receive_page hreceive ?_ hnamed hdone hnext)
          intro m more hanchor
          obtain ⟨p, hp, -⟩ := receive_page hreceive
          by_contra hfar
          exact hnear ⟨a, m, more, p, rfl, hanchor, by omega, hp⟩

theorem next_getting {chunk : List ProviderKey} {more : List (List ProviderKey)}
    (h : f.next (.getting w chunk more) answer = .inl s') :
    rankLt (s'.rank ids unasked') ((Step.getting w chunk more).rank ids unasked) := by
  have hget : w.get more = .inl s' := by
    unfold MemberFetch.next at h
    dsimp only at h
    split at h
    · exact h
    · exact nomatch h
    · exact nomatch h
    · exact nomatch h
  cases more with
  | nil => exact absurd hget finish_ne
  | cons chunk' more =>
    obtain rfl := Sum.inl.inj hget
    exact .right _ (.left _ _ (Nat.lt_succ_self _))

end Progress

/-! ## Passes and deltas end -/

section Endings

variable {answers : ℕ → Answer T}

def NamesAgain (since : ℕ → Option SyncState) (answers : ℕ → Answer T) (k : ℕ) : Prop :=
  ∃ state, goesOnFrom (answers k) = some state ∧ ∃ j ≤ k, since j = some state

theorem sinceAt_of_after {f : MemberFetch} {cursor : Option SyncState} {k : ℕ} {s : Step}
    (h : after f.next answers (f.start cursor) k = .inl s) : f.sinceAt answers cursor k = s.since := by
  unfold MemberFetch.sinceAt
  rw [h]

theorem memberPass_ends_iff (f : MemberFetch) (cursor : Option SyncState) (hnamed : FinitelyNamed answers) :
    Ends f.next answers (f.start cursor) ↔ Eventually f.next answers (f.start cursor) fun k s =>
      ¬ FarBack s (answers k) ∧ ¬ NamesAgain (f.sinceAt answers cursor) answers k := by
  constructor
  · intro h
    exact h.eventually _
  · rintro ⟨K, hK⟩
    refine ends_of_eventually rankLt_wf
      (fun k s => s.rank hnamed.ids.toFinset (untaken hnamed.states.toFinset (f.sinceAt answers cursor) k).card)
      ⟨K, fun k s hle hk s' hnext => ?_⟩
    obtain ⟨hnear, hnew⟩ := hK k s hle hk
    have hids : ∀ id, (answers k).NamesId id → id ∈ hnamed.ids.toFinset := by
      intro id hid
      exact hnamed.ids.mem_toFinset.mpr ⟨k, hid⟩
    cases s with
    | delta first since =>
      cases next_delta hnext with
      | inl hstate =>
        obtain ⟨state, hgoes, hnames, rfl⟩ := hstate
        have hmem : state ∈ hnamed.states.toFinset := hnamed.states.mem_toFinset.mpr ⟨k, hnames⟩
        have hfirst : ∀ j ≤ k, f.sinceAt answers cursor j ≠ some state := by
          intro j hj hagain
          exact hnew ⟨state, hgoes, j, hj, hagain⟩
        have hsucc : f.sinceAt answers cursor (k + 1) = some state :=
          sinceAt_of_after ((after_succ_of_state hk).trans hnext)
        exact .right _ (.left _ _ (card_untaken_lt hmem hfirst hsucc))
      | inr hwalk =>
        apply rankLt_of_stage
        rw [hwalk]
        exact Nat.add_lt_add_right (Nat.lt_succ_self 2) listings
    | walking a => exact next_walking hnext hnear hids
    | listing w n a => exact next_listing hnext hnear hids
    | getting w chunk more => exact next_getting hnext

theorem next_pagedDelta {since since' : SyncState} {answer : Answer T} (h : pagedDelta since answer = .inl since') :
    goesOnFrom answer = some since' ∧ answer.NamesState since' := by
  cases answer with
  | changes c =>
    unfold pagedDelta at h
    dsimp only at h
    split at h
    · exact nomatch h
    · exact nomatch h
    · exact nomatch h
    · rename_i diff _ _ hdiff _ _
      split at h
      · exact nomatch h
      · split at h
        · rename_i hmore
          obtain rfl := Sum.inl.inj h
          refine ⟨?_, diff, hdiff, rfl⟩
          unfold goesOnFrom
          dsimp only
          rw [hdiff]
          exact if_pos hmore
        · exact nomatch h
  | page p => exact nomatch h
  | objects list => exact nomatch h
  | failed e => exact nomatch h

theorem pagedDelta_ends_iff (since : SyncState) (hnamed : FinitelyNamed answers) :
    Ends pagedDelta answers (.inl since) ↔ Eventually pagedDelta answers (.inl since) fun k _ =>
      ¬ NamesAgain (pagedSinceAt answers since) answers k := by
  constructor
  · intro h
    exact h.eventually _
  · rintro ⟨K, hK⟩
    refine ends_of_eventually Nat.lt_wfRel.wf
      (fun k _ => (untaken hnamed.states.toFinset (pagedSinceAt answers since) k).card) ⟨K, fun k s hle hk s' hnext => ?_⟩
    obtain ⟨hgoes, hnames⟩ := next_pagedDelta hnext
    have hmem : s' ∈ hnamed.states.toFinset := hnamed.states.mem_toFinset.mpr ⟨k, hnames⟩
    have hfirst : ∀ j ≤ k, pagedSinceAt answers since j ≠ some s' := by
      intro j hj hagain
      exact hK k s hle hk ⟨s', hgoes, j, hj, hagain⟩
    have hsucc : pagedSinceAt answers since (k + 1) = some s' := by
      unfold pagedSinceAt
      rw [after_succ_of_state hk, hnext]
    exact card_untaken_lt hmem hfirst hsucc

/-- Against a server that names finitely many ids and states, a pass and a delta end exactly where they step far back,
and are named a state they have asked from, only so many times. -/
theorem paging_ends_iff (answers : ℕ → Answer T) (hnamed : FinitelyNamed answers) :
    (∀ (f : MemberFetch) (cursor : Option SyncState), Ends f.next answers (f.start cursor) ↔
      Eventually f.next answers (f.start cursor) fun k s =>
        ¬ FarBack s (answers k) ∧ ¬ NamesAgain (f.sinceAt answers cursor) answers k) ∧
    ∀ since : SyncState, Ends pagedDelta answers (.inl since) ↔
      Eventually pagedDelta answers (.inl since) fun k _ => ¬ NamesAgain (pagedSinceAt answers since) answers k :=
  ⟨fun f cursor => memberPass_ends_iff f cursor hnamed, fun since => pagedDelta_ends_iff since hnamed⟩

end Endings

/-! ## Servers that go on for ever -/

def lettersPage (ids : List ProviderKey) : Answer Unit :=
  .page ⟨.ok ids, none, none, none, none, some ⟨some "s", some []⟩⟩

/-- Two pages of two letters, the second one found at the second try, the last letter, and then the listing. -/
def lettersAnswers : ℕ → Answer Unit
  | 0 => lettersPage ["a", "b"]
  | 1 => .failed (.method "anchorNotFound")
  | 2 => lettersPage ["b", "c"]
  | 3 => lettersPage ["c"]
  | _ => lettersPage ["a", "b", "c"]

def letters : MemberFetch := ⟨"Letter", .fixed, 2⟩

def changesAnswers (k : ℕ) : Answer Unit :=
  .changes ⟨.ok ⟨[], [], [], if k = 0 then "b" else if k = 1 then "c" else "d", decide (k < 2)⟩, .ok [], .ok []⟩

def stepsFarBack (next : Next) : Bool :=
  match next with
  | .inl s => s.asking.any fun a =>
    match a.anchor with
    | .back n _ => decide (a.walk.served ≤ n)
    | .top => false
  | .inr _ => false

theorem lettersAnswers_named : FinitelyNamed lettersAnswers := by
  have hpage : ∀ k, lettersAnswers k = .failed (.method "anchorNotFound") ∨
      ∃ ids, (∀ id ∈ ids, id = "a" ∨ id = "b" ∨ id = "c") ∧ lettersAnswers k = lettersPage ids
    | 0 => .inr ⟨_, by simp, rfl⟩
    | 1 => .inl rfl
    | 2 => .inr ⟨_, by simp, rfl⟩
    | 3 => .inr ⟨_, by simp, rfl⟩
    | _ + 4 => .inr ⟨_, by simp, rfl⟩
  constructor
  · refine Set.Finite.subset (Set.toFinite {"a", "b", "c"}) ?_
    rintro id ⟨k, hk⟩
    rcases hpage k with h | ⟨ids, hids, h⟩
    · rw [h] at hk
      exact hk.elim
    · rw [h] at hk
      obtain ⟨_, heq, hid⟩ := hk
      cases heq
      exact hids id hid
  · refine Set.Finite.subset (Set.finite_singleton "s") ?_
    rintro state ⟨k, hk⟩
    rcases hpage k with h | ⟨ids, -, h⟩
    · rw [h] at hk
      exact hk.elim
    · rw [h] at hk
      rcases hk with hk | ⟨_, heq, hk⟩
      · cases hk
      · cases heq
        exact (Option.some.inj hk).symm

theorem changesAnswers_named : FinitelyNamed changesAnswers := by
  constructor
  · refine Set.Finite.subset Set.finite_empty ?_
    rintro id ⟨k, _, heq, hid⟩
    cases heq
    simp at hid
  · refine Set.Finite.subset (Set.toFinite {"b", "c", "d"}) ?_
    rintro state ⟨k, _, heq, rfl⟩
    cases heq
    simp only [Set.mem_insert_iff, Set.mem_singleton_iff]
    split
    · exact .inl rfl
    · split
      · exact .inr (.inl rfl)
      · exact .inr (.inr rfl)

/-- A pass that has to step back for its second page ends, and so does a delta of three pages. -/
theorem paging_ends_iff_letters : Ends letters.next lettersAnswers (letters.start none) ∧
    Ends pagedDelta changesAnswers (.inl "a") := by
  constructor
  · refine ((paging_ends_iff _ lettersAnswers_named).1 letters none).mpr ⟨0, fun k s _ hk => ⟨?_, ?_⟩⟩
    · rintro ⟨a, n, more, p, hasking, hanchor, hfar, -⟩
      have hfew : ∀ k < 5, stepsFarBack (after letters.next lettersAnswers (letters.start none) k) = false := by
        decide +kernel
      have hends : (after letters.next lettersAnswers (letters.start none) 5).isRight = true := by decide +kernel
      by_cases hlt : k < 5
      · have hnot := hfew k hlt
        rw [hk] at hnot
        simp [stepsFarBack, hasking, hanchor, hfar] at hnot
      · obtain ⟨b, hb⟩ := Sum.isRight_iff.mp hends
        rw [ended_of_le hb (not_lt.mp hlt)] at hk
        cases hk
    · rintro ⟨state, hgoes, -⟩
      have hnone : ∀ k, goesOnFrom (lettersAnswers k) = none
        | 0 | 1 | 2 | 3 | _ + 4 => rfl
      rw [hnone] at hgoes
      cases hgoes
  · refine ((paging_ends_iff _ changesAnswers_named).2 "a").mpr ⟨2, fun k s hle _ => ?_⟩
    rintro ⟨state, hgoes, -⟩
    have hlast : decide (k < 2) = false := decide_eq_false (not_lt.mpr hle)
    unfold goesOnFrom changesAnswers at hgoes
    dsimp only at hgoes
    rw [hlast] at hgoes
    cases hgoes

def twoStates (k : ℕ) : Answer Unit :=
  .changes ⟨.ok ⟨[], [], [], if k % 2 = 0 then "b" else "a", true⟩, .ok [], .ok []⟩

def onePage : QueryPage Unit := ⟨.ok ["a"], none, none, none, none, some ⟨some "s", some []⟩⟩

def goneByTurns (k : ℕ) : Answer Unit :=
  if k % 2 = 0 then .page onePage else .failed (.method "anchorNotFound")

theorem twoStates_asks (k : ℕ) : after pagedDelta twoStates (.inl "a") k = .inl (if k % 2 = 0 then "a" else "b") := by
  induction k with
  | zero => rfl
  | succ k ih =>
    rw [after_succ_of_state ih]
    unfold twoStates
    by_cases heven : k % 2 = 0
    · rw [if_pos heven, if_pos heven, if_neg (by omega)]
      rfl
    · rw [if_neg heven, if_neg heven, if_pos (by omega)]
      rfl

theorem destutter'_head {α : Type} {R : α → α → Prop} [DecidableRel R] (a : α) (l : List α) :
    ∃ rest, l.destutter' R a = a :: rest := by
  induction l with
  | nil => exact ⟨[], rfl⟩
  | cons b l ih =>
    by_cases h : R a b
    · exact ⟨_, List.destutter'_cons_pos l h⟩
    · rw [List.destutter'_cons_neg l h]
      exact ih

theorem anchors_of_two {len : Nat} (h : 2 ≤ len) : ∃ rest, anchors len = 0 :: 1 :: rest := by
  obtain ⟨n, hn⟩ : ∃ n, min len 4 = n + 2 := ⟨min len 4 - 2, by omega⟩
  have hrange : List.range (n + 2) = 0 :: 1 :: (List.range n).map (· + 2) := by
    rw [List.range_succ_eq_map, List.range_succ_eq_map]
    simp [List.map_map, Function.comp_def]
  unfold anchors
  rw [hn, hrange]
  obtain ⟨rest, hrest⟩ := @destutter'_head _ (· ≠ ·) _ 1
    ((List.range n).map (· + 2) ++ farBack len len 8 ++ (if 4 < len then [len - 1] else []))
  refine ⟨rest, ?_⟩
  rw [← hrest]
  exact List.destutter'_cons_pos _ (by decide)

/-- The walk has seen its one id, and its last anchors are tried one page back. -/
structure Stuck (w : Walk) : Prop where
  limit : w.limit = 1
  served : w.served = 1
  withObjects : w.withObjects = true
  cursor : w.cursor = some "s"
  total : w.total = none
  seen : "a" ∈ w.seen
  trail : 2 ≤ w.trail.length
  idle : w.idle ≤ w.reread + idlePages

variable {w : Walk}

theorem Stuck.absorb (h : Stuck w) : ∃ w' page,
    { w with reread := w.reread + 1 }.absorb onePage = .ok (w', page) ∧ Stuck w' ∧ w'.done = false := by
  let back : Walk := { w with reread := w.reread + 1 }
  have hfresh : (["a"].filter fun id => id ∉ w.seen) = [] := by simp [h.seen]
  have hobjects : back.readObjects [] (some ⟨some "s", some ([] : List (Object Unit))⟩) = .ok (some "s", []) := by
    unfold Walk.readObjects
    show (do
      let cursor ← match w.cursor, some "s" with
        | some cursor, _ => Except.ok cursor
        | none, some state => Except.ok state
        | none, none => Except.error (.protocol "missing state cursor")
      _ : Except JmapError (Option SyncState × List Unit)) = _
    rw [h.cursor]
    rfl
  have hdone : (back.extended onePage ["a"] (some "s")).done = false := by
    show Walk.atEnd ["a"] (onePage.limit.getD w.limit) (onePage.total <|> w.total) onePage.position = false
    rw [h.limit, h.total]
    rfl
  have hidle : ¬ back.reread + idlePages < w.idle + 1 := by
    have hle := h.idle
    show ¬ w.reread + 1 + idlePages < w.idle + 1
    omega
  refine ⟨{ back.extended onePage ["a"] (some "s") with idle := w.idle + 1 },
    ⟨[], [], (back.extended onePage ["a"] (some "s")).total⟩, ?_, ?_, hdone⟩
  · have hids : onePage.ids = .ok ["a"] := rfl
    have hgot : (if back.withObjects = true then onePage.got else none) = some ⟨some "s", some []⟩ := if_pos h.withObjects
    have hfresh' : (["a"].filter fun id => id ∉ back.seen) = [] := hfresh
    have heq := absorb_eq (w := back) (p := onePage) hids (by rw [hfresh', hgot]; exact hobjects)
    rw [hfresh', if_pos ⟨rfl, hdone⟩, if_neg hidle] at heq
    exact heq
  · exact {
      limit := h.limit
      served := by
        show max (onePage.limit.getD w.limit) 1 = 1
        rw [h.limit]
        rfl
      withObjects := h.withObjects
      cursor := rfl
      total := by
        show (onePage.total <|> w.total) = none
        rw [h.total]
        rfl
      seen := h.seen
      trail := by
        show 2 ≤ (w.trail ++ ["a"]).length
        rw [List.length_append]
        exact Nat.le_add_right_of_le h.trail
      idle := by
        have hle := h.idle
        show w.idle + 1 ≤ w.reread + 1 + idlePages
        omega }

theorem Stuck.turn {f : MemberFetch} {more : List Nat} {k : ℕ} (h : Stuck w)
    (hk : after f.next goneByTurns (f.start none) k = .inl (.walking ⟨w, .back 0 (1 :: more)⟩)) (hodd : k % 2 = 1) :
    ∃ w' more', Stuck w' ∧ after f.next goneByTurns (f.start none) (k + 2) = .inl (.walking ⟨w', .back 0 (1 :: more')⟩) := by
  have hgone : goneByTurns k = .failed (.method "anchorNotFound") := if_neg (by omega)
  have hpage : goneByTurns (k + 1) = .page onePage := if_pos (by omega)
  have hback : after f.next goneByTurns (f.start none) (k + 1) = .inl (.walking ⟨w, .back 1 more⟩) := by
    rw [after_succ_of_state hk, hgone]
    rfl
  obtain ⟨w', page, habsorb, hstuck, hdone⟩ := h.absorb
  obtain ⟨more', hanchors⟩ := anchors_of_two hstuck.trail
  have htrail : w'.trail ≠ [] := by
    intro hnil
    have hlen := hstuck.trail
    rw [hnil] at hlen
    exact absurd hlen (by decide)
  have hfetch : fetchPage w' = .ok ⟨w', .back 0 (1 :: more')⟩ := by
    unfold fetchPage
    rw [if_neg htrail, hanchors]
    rfl
  refine ⟨w', more', hstuck, ?_⟩
  have hreceive : (⟨w, .back 1 more⟩ : Asking).receive (.page onePage) = .ok (.inr (w', page)) := by
    have hone : 1 / w.served = 1 := by rw [h.served]
    show ({ w with reread := w.reread + 1 / w.served }.absorb onePage).map Sum.inr = _
    rw [hone, habsorb]
    rfl
  rw [after_succ_of_state hback, hpage]
  unfold MemberFetch.next
  dsimp only
  rw [hreceive]
  dsimp only
  rw [hdone, hfetch]
  rfl

/-- The one id asked for page by page. -/
def oneByOne : MemberFetch := ⟨"Email", .fixed, 1⟩

theorem stuck_start : ∃ w more, Stuck w ∧
    after oneByOne.next goneByTurns (oneByOne.start none) 3 = .inl (.walking ⟨w, .back 0 (1 :: more)⟩) := by
  refine ⟨_, _, ?_, rfl⟩
  exact ⟨rfl, rfl, rfl, rfl, rfl, by decide, by decide, by decide⟩

theorem stuck_turns (n : ℕ) : ∃ w more, Stuck w ∧
    after oneByOne.next goneByTurns (oneByOne.start none) (2 * n + 3) = .inl (.walking ⟨w, .back 0 (1 :: more)⟩) := by
  induction n with
  | zero => exact stuck_start
  | succ n ih =>
    obtain ⟨w, more, hstuck, hk⟩ := ih
    exact hstuck.turn hk (by omega)

theorem goneByTurns_named : FinitelyNamed goneByTurns := by
  have hanswer : ∀ k, goneByTurns k = .page onePage ∨ goneByTurns k = .failed (.method "anchorNotFound") := by
    intro k
    by_cases heven : k % 2 = 0
    · exact Or.inl (if_pos heven)
    · exact Or.inr (if_neg heven)
  constructor
  · apply Set.Finite.subset (Set.finite_singleton "a")
    rintro id ⟨k, hk⟩
    cases hanswer k with
    | inl hpage =>
      rw [hpage] at hk
      obtain ⟨ids, hids, hmem⟩ := hk
      obtain rfl := Except.ok.inj hids
      exact List.mem_singleton.mp hmem
    | inr hfailed =>
      rw [hfailed] at hk
      exact hk.elim
  · apply Set.Finite.subset (Set.finite_singleton "s")
    rintro state ⟨k, hk⟩
    cases hanswer k with
    | inl hpage =>
      rw [hpage] at hk
      cases hk with
      | inl hquery => exact nomatch hquery
      | inr hgot =>
        obtain ⟨got, hgot, hstate⟩ := hgot
        obtain rfl := Option.some.inj hgot
        exact (Option.some.inj hstate).symm
    | inr hfailed =>
      rw [hfailed] at hk
      exact hk.elim

theorem twoStates_named : FinitelyNamed twoStates := by
  constructor
  · apply Set.Finite.subset Set.finite_empty
    rintro id ⟨k, diff, hdiff, hid⟩
    obtain rfl := Except.ok.inj hdiff
    simp at hid
  · apply Set.Finite.subset (Set.toFinite {"a", "b"})
    rintro state ⟨k, diff, hdiff, hstate⟩
    obtain rfl := Except.ok.inj hdiff
    rw [← hstate]
    dsimp only
    split
    · exact Or.inr rfl
    · exact Or.inl rfl

/-- Neither a walk nor a delta need end, though one id and two states are all that is named. -/
theorem paging_goes_on : (FinitelyNamed goneByTurns ∧ ¬ Ends oneByOne.next goneByTurns (oneByOne.start none)) ∧
      FinitelyNamed twoStates ∧ ¬ Ends pagedDelta twoStates (.inl "a") := by
  refine ⟨⟨goneByTurns_named, ?_⟩, twoStates_named, ?_⟩
  · rintro ⟨k, result, hk⟩
    obtain ⟨w, more, -, hturn⟩ := stuck_turns k
    rw [ended_of_le hk (by omega)] at hturn
    exact nomatch hturn
  · rintro ⟨k, result, hk⟩
    rw [twoStates_asks k] at hk
    exact nomatch hk

end Jmap
end SyncEngine
