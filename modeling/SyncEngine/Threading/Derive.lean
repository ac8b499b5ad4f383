import Mathlib
import SyncEngine.Scope.Store
import SyncEngine.Library.Components
import SyncEngine.Library.Linking

/-!
# Threads derived from a whole account at once

The messages the provider did not thread are grouped by the ids they touch, each group is named by its smallest owned
`Message-ID` or else by its smallest key, and every message of the group is assigned that name.
-/

namespace SyncEngine
namespace Threading

/-!
## Messages as threading sees them

A conversation is a connected component of the ids messages own (`Message-ID`) and reference (`In-Reply-To`,
`References`).  The projection of a message is its row, which carries the thread the provider assigned, and its graph
rows, one for each id it owns or references.  A message the provider threaded projects no graph rows.
-/

/-- A provider key, a `Message-ID` value or a thread id.  All three are strings that are not
empty, so one becomes another without a check that can fail, and they are compared as
strings. -/
abbrev Text := { s : String // s ≠ "" }

-- Named, so that every definition that compares texts carries the same proof.
theorem text_lawful : LawfulBEq Text := inferInstance

theorem string_min : Std.MinEqOr String := inferInstance

structure Envelope where
  messageId : List Text
  inReplyTo : List Text
  references : List Text
deriving DecidableEq

inductive ThreadProvenance
  | providerAssigned
  | locallyDerived
deriving DecidableEq

structure ThreadRef where
  id : Text
  provenance : ThreadProvenance
deriving DecidableEq

def ThreadRef.isDerived (thread : ThreadRef) : Bool := thread.provenance = .locallyDerived

structure Message where
  key : Text
  envelope : Envelope
  thread : Option ThreadRef
deriving DecidableEq

def Message.threadId (message : Message) : Option Text := message.thread.map ThreadRef.id

def Message.derivable (message : Message) : Bool :=
  match message.thread with
  | none => true
  | some thread => thread.isDerived

def Message.touchedIds (message : Message) : List Text :=
  message.envelope.messageId ++ message.envelope.inReplyTo ++ message.envelope.references

/-- The row of a message, of whose columns threading reads these two. -/
structure MailRow where
  key : Text
  threadId : Option Text
deriving DecidableEq

/-- One id a message owns or references. -/
structure MailRefRow where
  key : Text
  msgid : Text
  owned : Bool
deriving DecidableEq

/-- Owned wins: an id a message both owns and references names its thread. -/
def pushRef (key : Text) (owned : Bool) (msgid : Text) : List MailRefRow → List MailRefRow
  | [] => [⟨key, msgid, owned⟩]
  | row :: rest =>
    if row.msgid = msgid then { row with owned := row.owned || owned } :: rest
    else row :: pushRef key owned msgid rest

def projectRefs (key : Text) (envelope : Envelope) (thread : Option ThreadRef) :
    List MailRefRow :=
  if thread.any fun thread => !thread.isDerived then []
  else
    let rows := envelope.messageId.foldl (fun rows msgid => pushRef key true msgid rows) []
    (envelope.inReplyTo ++ envelope.references).foldl
      (fun rows msgid => pushRef key false msgid rows) rows

def Message.row (message : Message) : MailRow := ⟨message.key, message.threadId⟩

def Message.refs (message : Message) : List MailRefRow :=
  projectRefs message.key message.envelope message.thread

/-- What one sync page writes: the messages it removes, then the ones it carries. -/
structure Page where
  scope : SyncScope
  removed : List Text
  messages : List Message
deriving DecidableEq

def Page.rows (page : Page) : List MailRow := page.messages.map Message.row

def Page.refs (page : Page) : List MailRefRow := page.messages.flatMap Message.refs

/-! ## What the projection holds -/

variable {key msgid : Text} {owned : Bool} {rows : List MailRefRow} {id : Text}

theorem mem_pushRef : (∃ r ∈ pushRef key owned msgid rows, r.msgid = id) ↔ (∃ r ∈ rows, r.msgid = id) ∨ id = msgid := by
  induction rows with
  | nil => simp [pushRef, eq_comm]
  | cons row rest ih =>
    rw [pushRef]
    by_cases hrow : row.msgid = msgid
    · rw [if_pos hrow]
      simp only [List.exists_mem_cons_iff, hrow]
      constructor
      · rintro (h | h)
        · exact Or.inr h.symm
        · exact Or.inl (Or.inr h)
      · rintro ((h | h) | h)
        · exact Or.inl h
        · exact Or.inr h
        · exact Or.inl h.symm
    · rw [if_neg hrow]
      simp only [List.exists_mem_cons_iff, ih, or_assoc]

theorem owned_pushRef : (∃ r ∈ pushRef key owned msgid rows, r.msgid = id ∧ r.owned = true) ↔
      (∃ r ∈ rows, r.msgid = id ∧ r.owned = true) ∨ id = msgid ∧ owned = true := by
  induction rows with
  | nil =>
    rw [pushRef]
    simp only [List.exists_mem_cons_iff, List.not_mem_nil, false_and, exists_false, or_false, false_or]
    constructor
    · rintro ⟨h, h'⟩
      exact ⟨h.symm, h'⟩
    · rintro ⟨h, h'⟩
      exact ⟨h.symm, h'⟩
  | cons row rest ih =>
    rw [pushRef]
    by_cases hrow : row.msgid = msgid
    · rw [if_pos hrow]
      simp only [List.exists_mem_cons_iff, hrow, Bool.or_eq_true]
      constructor
      · rintro (⟨h, h' | h'⟩ | h)
        · exact Or.inl (Or.inl ⟨h, h'⟩)
        · exact Or.inr ⟨h.symm, h'⟩
        · exact Or.inl (Or.inr h)
      · rintro ((⟨h, h'⟩ | h) | ⟨h, h'⟩)
        · exact Or.inl ⟨h, Or.inl h'⟩
        · exact Or.inr h
        · exact Or.inl ⟨h.symm, Or.inr h'⟩
    · rw [if_neg hrow]
      simp only [List.exists_mem_cons_iff, ih, or_assoc]

theorem key_pushRef (h : ∀ r ∈ rows, r.key = key) : ∀ r ∈ pushRef key owned msgid rows, r.key = key := by
  induction rows with
  | nil => simp [pushRef]
  | cons row rest ih =>
    rw [pushRef]
    have hrest := ih fun r hr => h r (List.mem_cons_of_mem _ hr)
    by_cases hrow : row.msgid = msgid
    · rw [if_pos hrow]
      intro r hr
      rcases List.mem_cons.mp hr with heq | hr
      · rw [heq]
        exact h row List.mem_cons_self
      · exact h r (List.mem_cons_of_mem _ hr)
    · rw [if_neg hrow]
      intro r hr
      rcases List.mem_cons.mp hr with heq | hr
      · rw [heq]
        exact h row List.mem_cons_self
      · exact hrest r hr

section Fold

variable {key : Text} {owned : Bool} {ids : List Text} {rows : List MailRefRow} {id : Text}

theorem mem_foldl_pushRef : (∃ r ∈ ids.foldl (fun rows msgid => pushRef key owned msgid rows) rows, r.msgid = id) ↔
      (∃ r ∈ rows, r.msgid = id) ∨ id ∈ ids := by
  induction ids generalizing rows with
  | nil => simp
  | cons first rest ih =>
    rw [List.foldl_cons, ih, mem_pushRef, List.mem_cons, or_assoc]

theorem owned_foldl_pushRef : (∃ r ∈ ids.foldl (fun rows msgid => pushRef key owned msgid rows) rows,
      r.msgid = id ∧ r.owned = true) ↔
      (∃ r ∈ rows, r.msgid = id ∧ r.owned = true) ∨ id ∈ ids ∧ owned = true := by
  induction ids generalizing rows with
  | nil => simp
  | cons first rest ih =>
    rw [List.foldl_cons, ih, owned_pushRef, List.mem_cons, or_and_right, or_assoc]

theorem key_foldl_pushRef (h : ∀ r ∈ rows, r.key = key) :
    ∀ r ∈ ids.foldl (fun rows msgid => pushRef key owned msgid rows) rows, r.key = key := by
  induction ids generalizing rows with
  | nil => exact h
  | cons first rest ih => exact ih (key_pushRef h)

end Fold

variable {message : Message}

theorem Message.derivable_iff : message.derivable = true ↔
    (message.thread.any fun thread => !thread.isDerived) = false := by
  cases h : message.thread with
  | none => simp [derivable, h]
  | some thread => simp [derivable, h]

theorem Message.key_of_mem_refs {r : MailRefRow} (h : r ∈ message.refs) : r.key = message.key := by
  rw [refs, projectRefs] at h
  by_cases hd : (message.thread.any fun thread => !thread.isDerived) = true
  · rw [if_pos hd] at h
    exact absurd h List.not_mem_nil
  · rw [if_neg hd] at h
    exact key_foldl_pushRef (key_foldl_pushRef (by simp)) r h

theorem Message.mem_refs : (∃ r ∈ message.refs, r.msgid = id) ↔ message.derivable = true ∧ id ∈ message.touchedIds := by
  rw [refs, projectRefs, derivable_iff]
  by_cases hd : (message.thread.any fun thread => !thread.isDerived) = true
  · simp [hd]
  · rw [if_neg hd, mem_foldl_pushRef, mem_foldl_pushRef, touchedIds]
    simp [hd]

theorem Message.owned_refs : (∃ r ∈ message.refs, r.msgid = id ∧ r.owned = true) ↔
      message.derivable = true ∧ id ∈ message.envelope.messageId := by
  rw [refs, projectRefs, derivable_iff]
  by_cases hd : (message.thread.any fun thread => !thread.isDerived) = true
  · simp [hd]
  · rw [if_neg hd, owned_foldl_pushRef, owned_foldl_pushRef]
    simp [hd]

/-! ## What a page holds -/

section OfPage

variable {page : Page} {key id : Text}

theorem Page.mem_refs : (∃ ref ∈ page.refs, ref.key = key ∧ ref.msgid = id) ↔
    ∃ m ∈ page.messages, m.key = key ∧ m.derivable = true ∧ id ∈ m.touchedIds := by
  simp only [Page.refs, List.mem_flatMap]
  constructor
  · rintro ⟨ref, ⟨m, hm, href⟩, hkey, hid⟩
    exact ⟨m, hm, (Message.key_of_mem_refs href).symm.trans hkey, Message.mem_refs.mp ⟨ref, href, hid⟩⟩
  · rintro ⟨m, hm, hkey, h⟩
    obtain ⟨ref, href, hid⟩ := Message.mem_refs.mpr h
    exact ⟨ref, ⟨m, hm, href⟩, (Message.key_of_mem_refs href).trans hkey, hid⟩

theorem Page.owned_refs : (∃ ref ∈ page.refs, ref.key = key ∧ ref.msgid = id ∧ ref.owned = true) ↔
    ∃ m ∈ page.messages, m.key = key ∧ m.derivable = true ∧ id ∈ m.envelope.messageId := by
  simp only [Page.refs, List.mem_flatMap]
  constructor
  · rintro ⟨ref, ⟨m, hm, href⟩, hkey, hid⟩
    exact ⟨m, hm, (Message.key_of_mem_refs href).symm.trans hkey, Message.owned_refs.mp ⟨ref, href, hid⟩⟩
  · rintro ⟨m, hm, hkey, h⟩
    obtain ⟨ref, href, hid⟩ := Message.owned_refs.mpr h
    exact ⟨ref, ⟨m, hm, href⟩, (Message.key_of_mem_refs href).trans hkey, hid⟩

theorem Page.mem_refs_keys : key ∈ page.refs.map MailRefRow.key ↔
    ∃ m ∈ page.messages, m.key = key ∧ m.derivable = true ∧ m.touchedIds ≠ [] := by
  rw [List.mem_map]
  constructor
  · rintro ⟨ref, href, hkey⟩
    obtain ⟨m, hm, hmk, hd, hid⟩ := Page.mem_refs.mp ⟨ref, href, hkey, rfl⟩
    exact ⟨m, hm, hmk, hd, List.ne_nil_of_mem hid⟩
  · rintro ⟨m, hm, hmk, hd, hne⟩
    obtain ⟨id, hid⟩ := List.exists_mem_of_ne_nil _ hne
    obtain ⟨ref, href, hkey, -⟩ := Page.mem_refs.mpr ⟨m, hm, hmk, hd, hid⟩
    exact ⟨ref, href, hkey⟩

end OfPage

theorem Message.threadId_eq_none_of_derivable (hd : message.derivable = true)
    (hp : ∀ t, message.thread = some t → t.isDerived = false) : message.thread = none := by
  cases h : message.thread with
  | none => rfl
  | some t =>
    have := hp t h
    simp [derivable, h, this] at hd

end Threading

namespace Threading

/-!
## The batch's messages grouped by the ids they share with each other

Both stores group a page before they assign threads, with the same union-find over the
positions of the page.  The groups come out of a hash map, so in an order no one fixes.

A group is connected through its own rows, the groups cover the page, and rows of
different groups share no id.
-/

open Relation

/-- The order in which a hash map yields its values: some arrangement of them. -/
structure HashOrder (α : Type) where
  arrange : List α → List α
  perm : ∀ l, (arrange l).Perm l

/-- The graph rows of the page under the key of their message. -/
abbrev ByKey := Keyed Text (List MailRefRow)

def ByKey.refsOf (byKey : ByKey) (key : Text) : List MailRefRow := (byKey.get? key).getD []

def ByKey.idsOf (byKey : ByKey) (key : Text) : List Text :=
  (byKey.refsOf key).map MailRefRow.msgid

def ByKey.touched (byKey : ByKey) (component : List MailRow) : List Text :=
  component.flatMap fun row => byKey.idsOf row.key

/-- The ids the batch owns in a component. -/
def ByKey.owned (byKey : ByKey) (component : List MailRow) : List Text :=
  ((component.flatMap fun row => byKey.refsOf row.key).filter MailRefRow.owned).map
    MailRefRow.msgid

def linkRows (graphed : List MailRow) (byKey : ByKey) : Linking graphed.length Text :=
  Linking.link fun i => byKey.idsOf (graphed.get i).key

def components (graphed : List MailRow) (byKey : ByKey) : List (List MailRow) :=
  (linkRows graphed byKey).forest.groups.map fun group => group.map graphed.get

theorem refsOf_group (refs : List MailRefRow) (key : Text) :
    ByKey.refsOf (Keyed.group refs MailRefRow.key) key = refs.filter fun r => r.key = key := by
  rw [ByKey.refsOf]
  cases h : (Keyed.group refs MailRefRow.key).get? key with
  | some g => exact ((Keyed.get?_group _ _ _).mp h).1
  | none =>
    have hnone := (Keyed.get?_group_eq_none _ _ _).mp h
    symm
    rw [Option.getD_none, List.filter_eq_nil_iff]
    intro r hr
    simpa using hnone r hr

section Spec

variable {graphed : List MailRow} {byKey : ByKey}

def ByKey.Touches (byKey : ByKey) (key id : Text) : Prop := id ∈ byKey.idsOf key

def Chained (graphed : List MailRow) (byKey : ByKey) (i j : Fin graphed.length) : Prop :=
  EqvGen (fun i j => Shares byKey.Touches (graphed.get i).key (graphed.get j).key) i j

/-- The rows chained to the one at position `i`. -/
def chainedTo (graphed : List MailRow) (byKey : ByKey) (i : Fin graphed.length) : List MailRow :=
  ((List.finRange graphed.length).filter fun j =>
    (linkRows graphed byKey).forest.root j = (linkRows graphed byKey).forest.root i).map graphed.get

variable {i j : Fin graphed.length}

theorem root_eq_iff : (linkRows graphed byKey).forest.root i =
    (linkRows graphed byKey).forest.root j ↔ Chained graphed byKey i j :=
  Linking.link_root_iff _ i j

variable {c : List MailRow}

theorem mem_components : c ∈ components graphed byKey ↔ ∃ i, c = chainedTo graphed byKey i := by
  simp only [components, List.mem_map, UnionFind.mem_groups]
  constructor
  · rintro ⟨_, ⟨i, rfl⟩, rfl⟩
    exact ⟨i, rfl⟩
  · rintro ⟨i, rfl⟩
    exact ⟨_, ⟨i, rfl⟩, rfl⟩

variable {row : MailRow}

theorem mem_chainedTo : row ∈ chainedTo graphed byKey i ↔ ∃ j, Chained graphed byKey j i ∧ graphed.get j = row := by
  simp only [chainedTo, List.mem_map, List.mem_filter, List.mem_finRange, true_and, decide_eq_true_eq, root_eq_iff]

theorem components_subset (hc : c ∈ components graphed byKey) (hrow : row ∈ c) : row ∈ graphed := by
  obtain ⟨i, rfl⟩ := mem_components.mp hc
  obtain ⟨j, -, rfl⟩ := mem_chainedTo.mp hrow
  exact List.get_mem graphed j

theorem components_cover (byKey : ByKey) (hrow : row ∈ graphed) : ∃ c ∈ components graphed byKey, row ∈ c := by
  obtain ⟨i, rfl⟩ := List.get_of_mem hrow
  exact ⟨_, mem_components.mpr ⟨i, rfl⟩, mem_chainedTo.mpr ⟨i, .refl i, rfl⟩⟩

theorem Chained.joined (h : Chained graphed byKey i j) {S : Set Text}
    (hS : ∀ k, Chained graphed byKey k i → (graphed.get k).key ∈ S) :
    Joined byKey.Touches S (graphed.get i).key (graphed.get j).key := by
  induction h with
  | rel a b hab =>
    refine Joined.of_shares (hS a (.refl a)) (hS b ?_) hab
    exact .symm _ _ (.rel _ _ hab)
  | refl a => exact .refl
  | symm a b hab ih => exact (ih fun k hk => hS k (.trans _ _ _ hk hab)).symm
  | trans a b c hab _ ih₁ ih₂ =>
    exact (ih₁ hS).trans (ih₂ fun k hk => hS k (.trans _ _ _ hk (.symm _ _ hab)))

theorem components_connected (hc : c ∈ components graphed byKey) : ∃ first ∈ c, ∀ row ∈ c,
      Joined byKey.Touches {k | ∃ r ∈ c, r.key = k} first.key row.key := by
  obtain ⟨i, rfl⟩ := mem_components.mp hc
  refine ⟨graphed.get i, mem_chainedTo.mpr ⟨i, .refl i, rfl⟩, ?_⟩
  intro row hrow
  obtain ⟨j, hji, rfl⟩ := mem_chainedTo.mp hrow
  refine Chained.joined (.symm _ _ hji) ?_
  intro k hk
  exact ⟨_, mem_chainedTo.mpr ⟨k, hk, rfl⟩, rfl⟩

theorem components_pairwise (graphed : List MailRow) (byKey : ByKey) : (components graphed byKey).Pairwise fun c c' =>
      ∀ row ∈ c, ∀ row' ∈ c', ¬ Shares byKey.Touches row.key row'.key := by
  rw [components, List.pairwise_map]
  refine (UnionFind.groups_pairwise _).imp ?_
  intro g g' hgg row hrow row' hrow' hshare
  obtain ⟨i, hi, rfl⟩ := List.mem_map.mp hrow
  obtain ⟨j, hj, rfl⟩ := List.mem_map.mp hrow'
  exact hgg i hi j hj (root_eq_iff.mpr (.rel _ _ hshare))

end Spec

end Threading

namespace Threading

open Relation

/-- The least owned id and the least key of each group, by the group's root. -/
structure GroupNames (n : Nat) where
  groups : UnionFind n
  ownedMin : Keyed (Fin n) Text
  keyMin : Keyed (Fin n) Text

def GroupNames.note (derivable : List Message) (s : GroupNames derivable.length)
    (index : Fin derivable.length) : GroupNames derivable.length :=
  let found := s.groups.find index
  { groups := found.1
    ownedMin := (derivable.get index).envelope.messageId.foldl
      (fun t header => t.lower found.2 header) s.ownedMin
    keyMin := s.keyMin.lower found.2 (derivable.get index).key }

def assignIndex (derivable : List Message) (names : GroupNames derivable.length)
    (s : UnionFind derivable.length × Keyed Text Text) (index : Fin derivable.length) :
    UnionFind derivable.length × Keyed Text Text :=
  let found := s.1.find index
  match (names.ownedMin.get? found.2).or (names.keyMin.get? found.2) with
  | some thread => (found.1, s.2.put (derivable.get index).key thread)
  | none => (found.1, s.2)

def linkMessages (derivable : List Message) : Linking derivable.length Text :=
  Linking.link fun index => (derivable.get index).touchedIds

def nameGroups (derivable : List Message) : GroupNames derivable.length :=
  (List.finRange derivable.length).foldl (GroupNames.note derivable)
    ⟨(linkMessages derivable).forest, Keyed.empty, Keyed.empty⟩

def deriveThreadAssignments (messages : List Message) : Keyed Text Text :=
  let derivable := messages.filter Message.derivable
  let names := nameGroups derivable
  ((List.finRange derivable.length).foldl (assignIndex derivable names)
    (names.groups, Keyed.empty)).2

/-! ## What the pass computes -/

section Spec

variable {derivable : List Message}

/-- After some positions were noted, each group holds the least of what those own and of
their keys, and the groups are the ones the ids made. -/
structure Noted (u : UnionFind derivable.length) (s : GroupNames derivable.length)
    (done : List (Fin derivable.length)) : Prop where
  root : ∀ i, s.groups.root i = u.root i
  owned : Keyed.Lowest s.ownedMin
    {p | ∃ i ∈ done, u.root i = p.1 ∧ p.2 ∈ (derivable.get i).envelope.messageId}
  key : Keyed.Lowest s.keyMin {p | ∃ i ∈ done, u.root i = p.1 ∧ (derivable.get i).key = p.2}

theorem lowest_foldl {n : Nat} (top : Fin n) (headers : List Text) {t : Keyed (Fin n) Text}
    {written : Set (Fin n × Text)} (h : Keyed.Lowest t written) :
    Keyed.Lowest (headers.foldl (fun t header => t.lower top header) t) (written ∪ {p | top = p.1 ∧ p.2 ∈ headers}) := by
  induction headers generalizing t written with
  | nil =>
    have hset : written ∪ {p | top = p.1 ∧ p.2 ∈ ([] : List Text)} = written := by
      ext p
      simp
    rw [hset]
    exact h
  | cons header rest ih =>
    have hset : written ∪ {p | top = p.1 ∧ p.2 ∈ header :: rest} =
        insert (top, header) written ∪ {p | top = p.1 ∧ p.2 ∈ rest} := by
      ext ⟨k, a⟩
      simp only [Set.mem_union, Set.mem_insert_iff, Set.mem_ofPred_eq, List.mem_cons, Prod.mk.injEq, eq_comm]
      tauto
    rw [hset]
    exact ih (h.lower top header)

variable {u : UnionFind derivable.length}

theorem Noted.note {s : GroupNames derivable.length}
    {done : List (Fin derivable.length)} (h : Noted u s done) (i : Fin derivable.length) :
    Noted u (s.note derivable i) (i :: done) := by
  have htop : (s.groups.find i).2 = u.root i := h.root i
  refine ⟨?_, ?_, ?_⟩
  · intro j
    show (s.groups.find i).1.root j = u.root j
    rw [UnionFind.root_find, h.root]
  · have hset : {p : Fin derivable.length × Text | ∃ j ∈ i :: done, u.root j = p.1 ∧
        p.2 ∈ (derivable.get j).envelope.messageId} =
        {p | ∃ j ∈ done, u.root j = p.1 ∧ p.2 ∈ (derivable.get j).envelope.messageId} ∪
        {p | u.root i = p.1 ∧ p.2 ∈ (derivable.get i).envelope.messageId} := by
      ext p
      simp only [List.exists_mem_cons_iff, Set.mem_union, Set.mem_ofPred_eq, or_comm]
    rw [hset, GroupNames.note]
    dsimp only
    rw [htop]
    exact lowest_foldl _ _ h.owned
  · have hset : {p : Fin derivable.length × Text | ∃ j ∈ i :: done, u.root j = p.1 ∧
        (derivable.get j).key = p.2} = insert (u.root i, (derivable.get i).key)
        {p | ∃ j ∈ done, u.root j = p.1 ∧ (derivable.get j).key = p.2} := by
      ext ⟨k, a⟩
      simp only [List.exists_mem_cons_iff, Set.mem_insert_iff, Set.mem_ofPred_eq, Prod.mk.injEq, eq_comm]
    rw [hset, GroupNames.note]
    dsimp only
    rw [htop]
    exact h.key.lower _ _

theorem noted_nameGroups (derivable : List Message) :
    ∃ done, (∀ i, i ∈ done) ∧ Noted (linkMessages derivable).forest (nameGroups derivable) done := by
  have hfold : ∀ (items : List (Fin derivable.length)) (s : GroupNames derivable.length)
      (done : List (Fin derivable.length)), Noted (linkMessages derivable).forest s done →
      Noted (linkMessages derivable).forest (items.foldl (GroupNames.note derivable) s) (items.reverse ++ done) := by
    intro items
    induction items with
    | nil => exact fun _ _ h => h
    | cons i rest ih =>
      intro s done h
      rw [List.reverse_cons, List.append_assoc]
      exact ih _ _ (h.note i)
  refine ⟨_, ?_, hfold (List.finRange derivable.length) _ [] ⟨fun _ => rfl, ?_, ?_⟩⟩
  · intro i
    rw [List.append_nil, List.mem_reverse]
    exact List.mem_finRange i
  · have hset : {p : Fin derivable.length × Text | ∃ i ∈ ([] : List (Fin derivable.length)),
        (linkMessages derivable).forest.root i = p.1 ∧ p.2 ∈ (derivable.get i).envelope.messageId} = ∅ := by
      ext p
      simp
    rw [hset]
    exact Keyed.lowest_empty
  · have hset : {p : Fin derivable.length × Text | ∃ i ∈ ([] : List (Fin derivable.length)),
        (linkMessages derivable).forest.root i = p.1 ∧ (derivable.get i).key = p.2} = ∅ := by
      ext p
      simp
    rw [hset]
    exact Keyed.lowest_empty

theorem isName_nameGroups (i : Fin derivable.length) :
    ∃ t, ((nameGroups derivable).ownedMin.get? ((linkMessages derivable).forest.root i)).or
        ((nameGroups derivable).keyMin.get? ((linkMessages derivable).forest.root i)) = some t ∧
      IsName (fun j id => id ∈ (derivable.get j).envelope.messageId) (fun j => (derivable.get j).key)
        {j | (linkMessages derivable).forest.root j = (linkMessages derivable).forest.root i} t := by
  obtain ⟨done, hall, hn⟩ := noted_nameGroups derivable
  cases ho : (nameGroups derivable).ownedMin.get? ((linkMessages derivable).forest.root i) with
  | some t =>
    obtain ⟨⟨j, -, hj, hin⟩, hle⟩ := hn.owned.least _ t ho
    refine ⟨t, rfl, Or.inl ⟨⟨j, hj, hin⟩, ?_⟩⟩
    rintro id ⟨k, hk, hid⟩
    exact hle ⟨k, hall k, hk, hid⟩
  | none =>
    obtain ⟨t, ht⟩ := hn.key.found ((linkMessages derivable).forest.root i) _ ⟨i, hall i, rfl, rfl⟩
    obtain ⟨⟨j, -, hj, hkey⟩, hle⟩ := hn.key.least _ t ht
    refine ⟨t, ht, Or.inr ⟨?_, ⟨j, hj, hkey⟩, ?_⟩⟩
    · intro k hk id hid
      obtain ⟨a, ha⟩ := hn.owned.found ((linkMessages derivable).forest.root i) id ⟨k, hall k, hk, hid⟩
      rw [ho] at ha
      simp at ha
    · rintro id ⟨k, hk, hid⟩
      exact hle ⟨k, hall k, hk, hid⟩

theorem get?_foldl_assignIndex {names : GroupNames derivable.length} {i : Fin derivable.length} {t : Text}
    (hval : (names.ownedMin.get? (u.root i)).or (names.keyMin.get? (u.root i)) = some t)
    (hkey : ∀ j, (derivable.get j).key = (derivable.get i).key → j = i)
    (items : List (Fin derivable.length)) (s : UnionFind derivable.length × Keyed Text Text)
    (hs : ∀ j, s.1.root j = u.root j)
    (h : i ∈ items ∨ s.2.get? (derivable.get i).key = some t) :
    (items.foldl (assignIndex derivable names) s).2.get? (derivable.get i).key = some t := by
  induction items generalizing s with
  | nil => exact h.resolve_left List.not_mem_nil
  | cons j rest ih =>
    have hroot : ∀ k, (assignIndex derivable names s j).1.root k = u.root k := by
      intro k
      rw [assignIndex]
      split
      · exact (UnionFind.root_find _ _ _).trans (hs k)
      · exact (UnionFind.root_find _ _ _).trans (hs k)
    refine ih _ hroot ?_
    by_cases hji : j = i
    · right
      subst hji
      rw [assignIndex]
      simp only [UnionFind.find_snd, hs, hval, Keyed.get?_put, if_true]
    · rcases h with h | h
      · exact Or.inl ((List.mem_cons.mp h).resolve_left fun he => hji he.symm)
      · right
        rw [assignIndex]
        split
        · rw [Keyed.get?_put, if_neg fun he => hji (hkey j he.symm)]
          exact h
        · exact h

end Spec

/-- Every message the provider did not thread is assigned the name of its component in the
graph of the ids all of them touch. -/
theorem derive_isName {messages : List Message} (hkeys : (messages.map Message.key).Nodup)
    {m : Message} (hm : m ∈ messages) (hd : m.derivable = true) :
    ∃ t, (deriveThreadAssignments messages).get? m.key = some t ∧
      IsName (fun m id => id ∈ m.envelope.messageId) Message.key (component (fun m id => id ∈ m.touchedIds)
          {m | m ∈ messages ∧ m.derivable = true} m) t := by
  have hnodup : ((messages.filter Message.derivable).map Message.key).Nodup := hkeys.sublist (List.filter_sublist.map _)
  obtain ⟨i, rfl⟩ := List.get_of_mem (List.mem_filter.mpr ⟨hm, hd⟩)
  obtain ⟨done, -, hn⟩ := noted_nameGroups (messages.filter Message.derivable)
  obtain ⟨t, hval, hname⟩ := isName_nameGroups i
  refine ⟨t, ?_, ?_⟩
  · refine get?_foldl_assignIndex hval ?_ _ _ hn.root (Or.inl (List.mem_finRange i))
    intro j hj
    have hsame := List.inj_on_of_nodup_map hnodup (List.get_mem _ j) (List.get_mem _ i) hj
    exact List.nodup_iff_injective_get.mp (List.Nodup.of_map _ hnodup) hsame
  · -- the positions of the list stand for the messages in it
    have hall : (messages.filter Message.derivable).get '' Set.univ = {m | m ∈ messages ∧ m.derivable = true} := by
      ext m
      constructor
      · rintro ⟨j, -, rfl⟩
        exact List.mem_filter.mp (List.get_mem _ j)
      · intro hin
        obtain ⟨j, hj⟩ := List.get_of_mem (List.mem_filter.mpr hin)
        exact ⟨j, Set.mem_univ j, hj⟩
    have hgroup : component (fun j id => id ∈ ((messages.filter Message.derivable).get j).touchedIds)
        Set.univ i = {j | (linkMessages (messages.filter Message.derivable)).forest.root j =
          (linkMessages (messages.filter Message.derivable)).forest.root i} := by
      ext j
      have hiff : (linkMessages (messages.filter Message.derivable)).forest.root j =
          (linkMessages (messages.filter Message.derivable)).forest.root i ↔ _ :=
        Linking.link_root_iff _ j i
      constructor
      · rintro ⟨-, hij⟩
        exact hiff.mpr (joined_univ_iff.mp hij.symm)
      · intro hj
        exact ⟨Set.mem_univ j, (joined_univ_iff.mpr (hiff.mp hj)).symm⟩
    rw [← hall, component_image (fun _ _ _ => Iff.rfl) (Set.mem_univ i), hgroup]
    exact (isName_image (fun _ _ _ => Iff.rfl) fun _ _ => rfl).mpr hname

end Threading
end SyncEngine
