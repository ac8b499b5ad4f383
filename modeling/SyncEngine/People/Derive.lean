import Mathlib
import SyncEngine.Library.Whitespace
import SyncEngine.Outbox.Op
import SyncEngine.Library.Linking

/-!
# Deriving people

A rebuild groups the sources by the addresses they share.  A group takes over the ids of the earlier people it has
sources of, unless an earlier group of the new order already owns them; it keeps the lowest and retires the others to
it.  A group that owns none gets a new id.

Nothing here depends on which addresses the canonical form accepts, so it is a parameter.
-/

namespace SyncEngine
namespace People

/-!
## Contact sources and unified people

A source is one provider card of one account.  A person unites the cards that describe them, with every value kept
beside the sources it came from.  A snapshot is one generation of people, the ids that were retired and the next id to
mint.  Of a card only what the derivation reads is kept, the properties of one kind in the order of their ids.
-/

abbrev ContactId := String

/-- An address reduced to the engine's equality key. -/
abbrev CanonicalEmail := String

/-- The account and the provider's contact id, compared in that order. -/
abbrev PersonSourceId := AccountId ×ₗ ContactId

/-- A person id is never zero.  The source counts it in sixty-four bits. -/
abbrev PersonId := Nat

inductive ContactSourceClass
  | personal
  | suggested
  | directory
  | mailHistory
deriving DecidableEq

inductive ContactKind
  | individual
  | organization
  | group
  | location
  | device
  | application
  | other (name : String)
deriving DecidableEq

structure ContactName where
  full : Option String
  components : List String
deriving DecidableEq

def ContactName.display (name : ContactName) : Option String :=
  (name.full.filter fun value => trimText value ≠ "").or
    (let joined := String.intercalate " "
      ((name.components.map trimText).filter fun value => value ≠ "")
    if joined = "" then none else some joined)

structure ContactCard where
  kind : ContactKind
  name : Option ContactName
  emails : List String
  phones : List String
  organizations : List String
  titles : List String
deriving DecidableEq

def ContactCard.displayName (card : ContactCard) : Option String :=
  card.name.bind ContactName.display

structure PersonSource where
  id : PersonSourceId
  card : ContactCard
  sourceClass : ContactSourceClass
  writable : Bool
deriving DecidableEq

/-- A value and every source that supplied it. -/
structure SourcedValue where
  value : String
  sources : Finset PersonSourceId
deriving DecidableEq

structure Person where
  id : PersonId
  displayName : Option String
  sources : Finset PersonSourceId
  kinds : Finset ContactKind
  names : List SourcedValue
  emails : List SourcedValue
  phones : List SourcedValue
  organizations : List SourcedValue
  titles : List SourcedValue
  isSaved : Bool
  isWritable : Bool
deriving DecidableEq

structure PeopleSnapshot where
  people : List Person
  aliases : Table PersonId
  nextId : Nat

def PeopleSnapshot.empty : PeopleSnapshot := ⟨[], Table.empty, 1⟩

inductive PeopleError
  | idExhausted
deriving DecidableEq

variable (parse : String → Option CanonicalEmail)

/-- The members of a list as an ordered set yields them. -/
def ascending {α : Type} [LinearOrder α] (l : List α) : List α := l.dedup.insertionSort (· ≤ ·)

def emailsOf (source : PersonSource) : List CanonicalEmail := source.card.emails.filterMap parse

/-! ## The groups -/

def joinSources (sources : List PersonSource) : Linking sources.length CanonicalEmail :=
  Linking.chain fun i => emailsOf parse (sources.get i)

def beforeByFirst (left right : List PersonSource) : Bool :=
  match left.head?, right.head? with
  | some a, some b => a.id ≤ b.id
  | _, _ => true

/-- The groups in the order of their first sources, so the order they are found in does not
matter. -/
def collectComponents (sources : List PersonSource) (sets : UnionFind sources.length) :
    List (List PersonSource) :=
  (sets.groups.map fun group => group.map sources.get).insertionSort fun l r => beforeByFirst l r

/-! ## The values of a person -/

def sourcedStrings (sources : List PersonSource) (values : PersonSource → List String) :
    List SourcedValue :=
  let carried := sources.flatMap fun source =>
    ((values source).filter fun value => value ≠ "").map fun value => (value, source.id)
  (ascending (carried.map Prod.fst)).map fun value =>
    ⟨value, ((carried.filter fun c => c.1 = value).map Prod.snd).toFinset⟩

def sourcedEmails (sources : List PersonSource) : List SourcedValue :=
  let carried := sources.flatMap fun source =>
    (emailsOf parse source).map fun email => (email, source.id)
  (ascending (carried.map Prod.fst)).map fun email =>
    ⟨email, ((carried.filter fun c => c.1 = email).map Prod.snd).toFinset⟩

def sourcePriority (source : PersonSource) : Nat :=
  match source.sourceClass, source.writable with
  | .personal, true => 0
  | .personal, false | .suggested, _ => 1
  | .directory, _ => 2
  | .mailHistory, _ => 3

def betterName (best : Option (PersonSource × String)) (next : PersonSource × String) :
    Option (PersonSource × String) :=
  match best with
  | none => some next
  | some best =>
    if sourcePriority next.1 < sourcePriority best.1 ∨
        sourcePriority next.1 = sourcePriority best.1 ∧ next.1.id < best.1.id
    then some next else some best

def preferredName (sources : List PersonSource) : Option String :=
  ((sources.filterMap fun source => source.card.displayName.map fun name => (source, name)).foldl
    betterName none).map Prod.snd

def materializePerson (id : PersonId) (sources : List PersonSource) : Person where
  id := id
  displayName := (preferredName sources).or
    ((sourcedEmails parse sources).head?.map SourcedValue.value)
  sources := (sources.map PersonSource.id).toFinset
  kinds := (sources.map fun source => source.card.kind).toFinset
  names := sourcedStrings sources fun source => source.card.displayName.toList
  emails := sourcedEmails parse sources
  phones := sourcedStrings sources fun source => source.card.phones
  organizations := sourcedStrings sources fun source => source.card.organizations
  titles := sourcedStrings sources fun source => source.card.titles
  isSaved := sources.any fun source => source.sourceClass = .personal
  isWritable := sources.any PersonSource.writable

/-! ## The ids -/

def sourceToOld (previous : PeopleSnapshot) (source : PersonSourceId) : Option PersonId :=
  (previous.people.reverse.find? fun person => source ∈ person.sources).map Person.id

def priorComponentCandidates (components : List (List PersonSource)) (previous : PeopleSnapshot) :
    List (List PersonId) :=
  components.map fun component =>
    ascending (component.filterMap fun source => sourceToOld previous source.id)

/-- The first of the groups that may take an id owns it. -/
def oldIdOwners (candidates : List (List PersonId)) : Table Nat :=
  candidates.zipIdx.foldl (fun owners c =>
    c.1.foldl (fun owners id =>
      if (owners.get? id).isSome then owners else owners.insert id c.2) owners) Table.empty

def PersonId.new (value : Nat) : Except PeopleError PersonId :=
  if value = 0 then .error .idExhausted else .ok value

def checkedSucc (value : Nat) : Except PeopleError Nat :=
  if value + 1 < 2 ^ 64 then .ok (value + 1) else .error .idExhausted

/-- One group gets its id. -/
def assignId (owners : Table Nat) (st : PeopleSnapshot)
    (group : (List PersonSource × List PersonId) × Nat) : Except PeopleError PeopleSnapshot :=
  match group.1.2.filter fun old => owners.get? old = some group.2 with
  | keep :: others => .ok
      { people := st.people ++ [materializePerson parse keep group.1.1]
        aliases := others.foldl (fun aliases retired => aliases.insert retired keep) st.aliases
        nextId := st.nextId }
  | [] => do
    let id ← PersonId.new st.nextId
    let nextId ← checkedSucc st.nextId
    .ok { people := st.people ++ [materializePerson parse id group.1.1]
          aliases := st.aliases
          nextId := nextId }

/-- Where an alias leads in at most `remaining` steps. -/
def aliasTarget (aliases : Table PersonId) : Nat → PersonId → PersonId
  | 0, target => target
  | remaining + 1, target =>
    match aliases.get? target with
    | none => target
    | some next => aliasTarget aliases remaining next

def flattenAliases (aliases : Table PersonId) : Table PersonId :=
  aliases.keys.foldl (fun aliases key =>
    match aliases.get? key with
    | none => aliases
    | some target =>
      let target := aliasTarget aliases (aliases.rows.length + 1) target
      if key ≠ target then aliases.insert key target else aliases) aliases

/-- The next id, above every id in use. -/
def firstFree (previous : PeopleSnapshot) : Nat :=
  max previous.nextId ((previous.people.map fun person => person.id + 1).max?.getD 1)

def rebuildPeople (sources : List PersonSource) (previous : PeopleSnapshot) :
    Except PeopleError PeopleSnapshot := do
  let ordered := sources.insertionSort fun left right => left.id ≤ right.id
  let components := collectComponents ordered (joinSources parse ordered).forest
  let prior := priorComponentCandidates components previous
  let owners := oldIdOwners prior
  let assigned ← (components.zip prior).zipIdx.foldlM (assignId parse owners)
    ⟨[], previous.aliases, firstFree previous⟩
  .ok { assigned with aliases := flattenAliases assigned.aliases }

end People

namespace People

/-!
## The groups of sources

Two sources belong together when a chain of shared canonical addresses connects them.  The
groups a rebuild collects are the classes of that relation: every source is in one, and a
group holds with a source all the sources connected to it.
-/

open Relation

variable {parse : String → Option CanonicalEmail} {sources : List PersonSource}

def SharesEmail (parse : String → Option CanonicalEmail) (a b : PersonSource) : Prop :=
  ∃ email, email ∈ emailsOf parse a ∧ email ∈ emailsOf parse b

def Connected (parse : String → Option CanonicalEmail) (sources : List PersonSource) :
    PersonSource → PersonSource → Prop :=
  EqvGen fun a b => a ∈ sources ∧ b ∈ sources ∧ SharesEmail parse a b

theorem Connected.mem {a b : PersonSource} (h : Connected parse sources a b) : a = b ∨ a ∈ sources ∧ b ∈ sources := by
  induction h with
  | rel a b hab => exact Or.inr ⟨hab.1, hab.2.1⟩
  | refl a => exact Or.inl rfl
  | symm a b _ ih =>
    rcases ih with rfl | ⟨ha, hb⟩
    · exact Or.inl rfl
    · exact Or.inr ⟨hb, ha⟩
  | trans a b c _ _ ih₁ ih₂ =>
    rcases ih₁ with rfl | ⟨ha, hb⟩
    · exact ih₂
    · rcases ih₂ with rfl | ⟨-, hc⟩
      · exact Or.inr ⟨ha, hb⟩
      · exact Or.inr ⟨ha, hc⟩

theorem Connected.congr {sources' : List PersonSource} (hmem : ∀ s, s ∈ sources ↔ s ∈ sources') :
    Connected parse sources = Connected parse sources' := by
  have hrel : (fun a b => a ∈ sources ∧ b ∈ sources ∧ SharesEmail parse a b) =
      fun a b => a ∈ sources' ∧ b ∈ sources' ∧ SharesEmail parse a b := by
    funext a b
    rw [hmem a, hmem b]
  rw [Connected, Connected, hrel]

theorem connected_get_iff (hnodup : sources.Nodup) (i j : Fin sources.length) :
    EqvGen (fun i j => ∃ email, email ∈ emailsOf parse (sources.get i) ∧ email ∈ emailsOf parse (sources.get j)) i j ↔
      Connected parse sources (sources.get i) (sources.get j) := by
  constructor
  · intro h
    induction h with
    | rel i j hij => exact .rel _ _ ⟨List.get_mem _ _, List.get_mem _ _, hij⟩
    | refl i => exact .refl _
    | symm i j _ ih => exact ih.symm
    | trans i j k _ _ ih₁ ih₂ => exact ih₁.trans _ _ _ ih₂
  · have hgen : ∀ a b, Connected parse sources a b → ∀ i j, sources.get i = a → sources.get j = b →
        EqvGen (fun i j => ∃ email, email ∈ emailsOf parse (sources.get i) ∧
          email ∈ emailsOf parse (sources.get j)) i j := by
      intro a b h
      induction h with
      | rel a b hab =>
        rintro i j rfl rfl
        exact .rel _ _ hab.2.2
      | refl a =>
        intro i j hi hj
        have hij : i = j := hnodup.injective_get (hi.trans hj.symm)
        rw [hij]
        exact .refl j
      | symm a b _ ih =>
        intro i j hi hj
        exact (ih j i hj hi).symm
      | trans a b c hab _ ih₁ ih₂ =>
        rintro i k rfl hk
        have hb : b ∈ sources := by
          rcases Connected.mem hab with heq | ⟨-, hb⟩
          · exact heq ▸ List.get_mem _ _
          · exact hb
        obtain ⟨j, hj⟩ := List.get_of_mem hb
        exact (ih₁ i j rfl hj).trans _ _ _ (ih₂ j k hj hk)
    exact fun h => hgen _ _ h i j rfl rfl

/-- The groups are the classes of the sources that belong together. -/
structure Partitions (parse : String → Option CanonicalEmail) (sources : List PersonSource)
    (components : List (List PersonSource)) : Prop where
  nonempty : ∀ c ∈ components, c ≠ []
  connected : ∀ c ∈ components, ∀ s ∈ c, ∀ s', s' ∈ c ↔ s' ∈ sources ∧ Connected parse sources s s'
  cover : ∀ s ∈ sources, ∃ c ∈ components, s ∈ c
  apart : components.Pairwise fun c c' => ∀ s ∈ c, s ∉ c'

theorem mem_collectComponents {sets : UnionFind sources.length} {c : List PersonSource} :
    c ∈ collectComponents sources sets ↔ ∃ i, c =
      ((List.finRange sources.length).filter fun j => sets.root j = sets.root i).map sources.get := by
  rw [collectComponents, (List.perm_insertionSort _ _).mem_iff, List.mem_map]
  simp only [UnionFind.mem_groups]
  constructor
  · rintro ⟨_, ⟨i, rfl⟩, rfl⟩
    exact ⟨i, rfl⟩
  · rintro ⟨i, rfl⟩
    exact ⟨_, ⟨i, rfl⟩, rfl⟩

theorem partitions_collectComponents (parse : String → Option CanonicalEmail) (hnodup : sources.Nodup) :
    Partitions parse sources (collectComponents sources (joinSources parse sources).forest) := by
  have hroot : ∀ i j, (joinSources parse sources).forest.root i = (joinSources parse sources).forest.root j ↔
        Connected parse sources (sources.get i) (sources.get j) := by
    intro i j
    rw [joinSources, Linking.chain_root_iff]
    exact connected_get_iff hnodup i j
  have hmem : ∀ i s, s ∈ ((List.finRange sources.length).filter fun j =>
      (joinSources parse sources).forest.root j = (joinSources parse sources).forest.root i).map sources.get ↔
      s ∈ sources ∧ Connected parse sources s (sources.get i) := by
    intro i s
    rw [List.mem_map]
    constructor
    · rintro ⟨j, hj, rfl⟩
      rw [List.mem_filter, decide_eq_true_eq] at hj
      exact ⟨List.get_mem _ _, (hroot j i).mp hj.2⟩
    · rintro ⟨hs, hc⟩
      obtain ⟨j, rfl⟩ := List.get_of_mem hs
      refine ⟨j, List.mem_filter.mpr ⟨List.mem_finRange j, ?_⟩, rfl⟩
      rw [decide_eq_true_eq]
      exact (hroot j i).mpr hc
  refine ⟨?_, ?_, ?_, ?_⟩
  · intro c hc hnil
    obtain ⟨i, rfl⟩ := mem_collectComponents.mp hc
    have hin := (hmem i (sources.get i)).mpr ⟨List.get_mem _ _, .refl _⟩
    rw [hnil] at hin
    exact absurd hin List.not_mem_nil
  · intro c hc s hs s'
    obtain ⟨i, rfl⟩ := mem_collectComponents.mp hc
    rw [hmem]
    have hsi := ((hmem i s).mp hs).2
    refine and_congr_right fun _ => ?_
    constructor
    · exact fun h => hsi.trans _ _ _ (h.symm)
    · exact fun h => (h.symm).trans _ _ _ hsi
  · intro s hs
    obtain ⟨i, rfl⟩ := List.get_of_mem hs
    exact ⟨_, mem_collectComponents.mpr ⟨i, rfl⟩, (hmem i _).mpr ⟨hs, .refl _⟩⟩
  · have hsymm : Std.Symm fun c c' : List PersonSource => ∀ s ∈ c, s ∉ c' := ⟨fun c c' h s hs hs' => h s hs' hs⟩
    rw [collectComponents]
    refine ((List.perm_insertionSort _ _).pairwise_iff (fun {_ _} h => hsymm.symm _ _ h)).mpr ?_
    rw [List.pairwise_map]
    refine (UnionFind.groups_pairwise _).imp ?_
    intro g g' hne s hs hs'
    obtain ⟨i, hi, rfl⟩ := List.mem_map.mp hs
    obtain ⟨j, hj, hij⟩ := List.mem_map.mp hs'
    have heq : j = i := hnodup.injective_get hij
    exact hne i hi j hj (by rw [heq])

end People
end SyncEngine
