import SyncEngine.People.Rebuild

/-!
# Unified people over any history

A history is a sequence of rebuilds from the empty snapshot, each over sources with distinct
ids.  Every snapshot of it is `Sound`, and every rebuild leaves people that are `Consistent`
with its sources and with the people before.  The counter only grows and new ids are taken
from it, so no id is minted twice.
-/

namespace SyncEngine
namespace People

variable {parse : String → Option CanonicalEmail} {sources : List PersonSource}
  {previous next : PeopleSnapshot}

/-- One rebuild of a history. -/
structure Rebuilds (parse : String → Option CanonicalEmail) (previous : PeopleSnapshot)
    (sources : List PersonSource) (next : PeopleSnapshot) : Prop where
  ids : (sources.map PersonSource.id).Nodup
  built : rebuildPeople parse sources previous = .ok next

/-- A rebuild of a sound snapshot, with the ids it hands out. -/
structure Built (parse : String → Option CanonicalEmail) (sources : List PersonSource)
    (previous : PeopleSnapshot) (idOf : Nat → PersonId) (st : PeopleSnapshot) : Prop where
  sound : Sound previous
  ids : (sources.map PersonSource.id).Nodup
  placed : Placed parse (ownersOf parse sources previous) previous.aliases previous.nextId
    (ranked (groupsOf parse sources) previous) idOf st

theorem exists_built (hs : Sound previous) (h : Rebuilds parse previous sources next) :
    ∃ idOf st, Built parse sources previous idOf st ∧
      next = { st with aliases := flattenAliases st.aliases } := by
  obtain ⟨idOf, st, hplaced, hnext⟩ := rebuild_placed h.built
  rw [hs.firstFree_eq] at hplaced
  exact ⟨idOf, st, ⟨hs, h.ids, hplaced⟩, hnext⟩

namespace Built

variable {idOf : Nat → PersonId} {st : PeopleSnapshot}

section Facts

variable (h : Built parse sources previous idOf st) {g g' : Ranked}
  (hg : g ∈ ranked (groupsOf parse sources) previous)
include h hg

theorem idOf_cases : (idOf g.2 ∈ eligible (ownersOf parse sources previous) g ∧ ∃ p ∈ previous.people, p.id = idOf g.2) ∨
    eligible (ownersOf parse sources previous) g = [] ∧ previous.nextId ≤ idOf g.2 := by
  cases heligible : eligible (ownersOf parse sources previous) g with
  | nil => exact Or.inr ⟨rfl, (h.placed.minted g hg heligible).1⟩
  | cons old rest =>
    have hold : old ∈ eligible (ownersOf parse sources previous) g := heligible ▸ List.mem_cons_self
    have hin := (h.placed.kept g hg old hold).1
    obtain ⟨-, -, p, hp, -, hid⟩ := person_of_eligible hg hin
    exact Or.inl ⟨heligible ▸ hin, p, hp, hid⟩

theorem idOf_lt : idOf g.2 < st.nextId := by
  cases heligible : eligible (ownersOf parse sources previous) g with
  | nil => exact (h.placed.minted g hg heligible).2
  | cons old rest =>
    rcases h.idOf_cases hg with ⟨-, p, hp, hid⟩ | ⟨hnone, -⟩
    · rw [← hid]
      exact Nat.lt_of_lt_of_le (h.sound.below p hp) h.placed.nextId
    · rw [heligible] at hnone
      simp at hnone

theorem idOf_injective (hg' : g' ∈ ranked (groupsOf parse sources) previous) (heq : idOf g.2 = idOf g'.2) : g = g' := by
  refine ranked_eq_of_index hg hg' ?_
  rcases h.idOf_cases hg with ⟨hin, p, hp, hid⟩ | ⟨hnone, hfree⟩
  · rcases h.idOf_cases hg' with ⟨hin', -⟩ | ⟨-, hfree'⟩
    · exact eligible_index hin (heq ▸ hin')
    · have hlt := h.sound.below p hp
      rw [hid, heq] at hlt
      exact absurd hfree' (Nat.not_le_of_lt hlt)
  · rcases h.idOf_cases hg' with ⟨-, p, hp, hid⟩ | ⟨hnone', -⟩
    · have hlt := h.sound.below p hp
      rw [hid, ← heq] at hlt
      exact absurd hfree (Nat.not_le_of_lt hlt)
    · exact h.placed.fresh g hg g' hg' hnone hnone' heq

theorem get?_idOf : st.aliases.get? (idOf g.2) = none := by
  cases hget : st.aliases.get? (idOf g.2) with
  | none => rfl
  | some t =>
    rcases h.placed.retired _ t hget with hold | ⟨g', hg', hin, hne, -⟩
    · rcases h.idOf_cases hg with ⟨-, p, hp, hid⟩ | ⟨-, hfree⟩
      · have hnone := h.sound.current p hp
        rw [hid, hold] at hnone
        simp at hnone
      · exact absurd hfree (Nat.not_le_of_lt (h.sound.retired _ t hold))
    · rcases h.idOf_cases hg with ⟨hin', -⟩ | ⟨-, hfree⟩
      · have hsame := ranked_eq_of_index hg hg' (eligible_index hin' hin)
        exact absurd (by rw [hsame]) hne
      · obtain ⟨-, -, p, hp, -, hid⟩ := person_of_eligible hg' hin
        have hlt := h.sound.below p hp
        rw [hid] at hlt
        exact absurd hfree (Nat.not_le_of_lt hlt)

end Facts

theorem shallow (h : Built parse sources previous idOf st) : Shallow st.aliases := by
  intro k t hk
  rcases h.placed.retired k t hk with hold | ⟨g, hg, -, -, rfl⟩
  · cases ht : st.aliases.get? t with
    | none => exact Or.inl rfl
    | some t' =>
      rcases h.placed.retired t t' ht with hold' | ⟨g, hg, -, -, rfl⟩
      · rw [h.sound.flat k t hold] at hold'
        simp at hold'
      · exact Or.inr ⟨_, rfl, h.get?_idOf hg⟩
  · exact Or.inl (h.get?_idOf hg)

theorem get?_flatten_eq_none (h : Built parse sources previous idOf st) (k : PersonId) :
    (flattenAliases st.aliases).get? k = none ↔ st.aliases.get? k = none := by
  rw [get?_flattenAliases h.shallow, aliasEnd, Option.map_eq_none_iff]

variable {p : Person}

theorem mem_people (h : Built parse sources previous idOf st) :
    p ∈ st.people ↔ ∃ g ∈ ranked (groupsOf parse sources) previous, p = materializePerson parse (idOf g.2) g.1.1 := by
  rw [h.placed.people, List.mem_map]
  simp only [eq_comm]

variable {g : Ranked}

theorem mem_groupsOf (hg : g ∈ ranked (groupsOf parse sources) previous) :
    g.1.1 ∈ groupsOf parse sources := List.mem_of_getElem? (mem_ranked.mp hg).1

theorem exists_ranked {c : List PersonSource} (hc : c ∈ groupsOf parse sources)
    (previous : PeopleSnapshot) : ∃ g ∈ ranked (groupsOf parse sources) previous, g.1.1 = c := by
  rw [← ranked_components (groupsOf parse sources) previous, List.mem_map] at hc
  exact hc

variable {s : PersonSource}

theorem source_eq (h : Built parse sources previous idOf st) {s' : PersonSource}
    (hs : s ∈ sources) (hs' : s' ∈ sources) (hid : s.id = s'.id) : s = s' :=
  List.inj_on_of_nodup_map h.ids hs hs' hid

theorem source_mem_iff (h : Built parse sources previous idOf st)
    (hg : g ∈ ranked (groupsOf parse sources) previous) (hs : s ∈ sources) :
    s.id ∈ (materializePerson parse (idOf g.2) g.1.1).sources ↔ s ∈ g.1.1 := by
  rw [mem_materialize_sources]
  constructor
  · rintro ⟨s', hs', hid⟩
    have hmem := (((partitions_groupsOf parse h.ids).connected _ (mem_groupsOf hg) s' hs' s').mp hs').1
    rw [h.source_eq hs hmem hid.symm]
    exact hs'
  · intro hin
    exact ⟨s, hin, rfl⟩

theorem ranked_eq_of_source (h : Built parse sources previous idOf st) {g' : Ranked}
    (hg : g ∈ ranked (groupsOf parse sources) previous)
    (hg' : g' ∈ ranked (groupsOf parse sources) previous) (hs : s ∈ g.1.1)
    (hs' : s ∈ g'.1.1) : g = g' := by
  have hapart := (partitions_groupsOf parse h.ids).apart
  rw [← ranked_components (groupsOf parse sources) previous, List.pairwise_map] at hapart
  by_contra hne
  have : Std.Symm fun g g' : Ranked => ∀ s ∈ g.1.1, s ∉ g'.1.1 := ⟨fun _ _ h s hs hs' => h s hs' hs⟩
  exact hapart.forall hg hg' hne s hs hs'

theorem sources_of_group (h : Built parse sources previous idOf st)
    (hg : g ∈ ranked (groupsOf parse sources) previous) (hs : s ∈ g.1.1) :
    s ∈ sources :=
  (((partitions_groupsOf parse h.ids).connected _ (mem_groupsOf hg) s hs s).mp hs).1

theorem next_sound (h : Built parse sources previous idOf st) :
    Sound { st with aliases := flattenAliases st.aliases } where
  ids := by
    show (st.people.map Person.id).Nodup
    rw [h.placed.people, List.map_map]
    refine List.Nodup.map_on ?_ (List.Nodup.of_map _ (ranked_nodup _ previous))
    intro g hg g' hg' heq
    exact h.idOf_injective hg hg' heq
  sources := by
    show st.people.Pairwise _
    rw [h.placed.people, List.pairwise_map]
    refine List.Pairwise.imp_of_mem ?_ (List.Nodup.of_map _ (ranked_nodup _ previous))
    intro g g' hg hg' hne id hid hid'
    rw [mem_materialize_sources] at hid
    obtain ⟨s, hs, rfl⟩ := hid
    rw [h.source_mem_iff hg' (h.sources_of_group hg hs)] at hid'
    exact hne (h.ranked_eq_of_source hg hg' hs hid')
  below p hp := by
    obtain ⟨g, hg, rfl⟩ := h.mem_people.mp hp
    exact h.idOf_lt hg
  current p hp := by
    obtain ⟨g, hg, rfl⟩ := h.mem_people.mp hp
    rw [h.get?_flatten_eq_none]
    exact h.get?_idOf hg
  retired k t hk := by
    have hne : st.aliases.get? k ≠ none := by
      rw [Ne, ← h.get?_flatten_eq_none, hk]
      simp
    obtain ⟨t', ht'⟩ := Option.ne_none_iff_exists'.mp hne
    have hlt : k < previous.nextId := by
      rcases h.placed.retired k t' ht' with hold | ⟨g, hg, hin, -, -⟩
      · exact h.sound.retired k t' hold
      · obtain ⟨-, -, p, hp, -, rfl⟩ := person_of_eligible hg hin
        exact h.sound.below p hp
    exact Nat.lt_of_lt_of_le hlt h.placed.nextId
  flat k t hk := by
    rw [h.get?_flatten_eq_none]
    rw [get?_flattenAliases h.shallow] at hk
    exact aliasEnd_ne h.shallow hk
  positive := Nat.le_trans h.sound.positive h.placed.nextId

theorem continued (h : Built parse sources previous idOf st) (hp : p ∈ previous.people) (hs : s ∈ sources) (hsp : s.id ∈ p.sources) :
    ∃ q ∈ st.people, (∃ id ∈ p.sources, id ∈ q.sources) ∧
      (p.id = q.id ∨ (flattenAliases st.aliases).get? p.id = some q.id) := by
  obtain ⟨c, hc, hsc⟩ := (partitions_groupsOf parse h.ids).cover s hs
  obtain ⟨g, hg, hin⟩ := exists_owner hc hsc (h.sound.sourceToOld_eq hp hsp)
  refine ⟨_, h.mem_people.mpr ⟨g, hg, rfl⟩, ?_, ?_⟩
  · obtain ⟨s', hs', q, hq, hsq, hid⟩ := person_of_eligible hg hin
    have hpq : q = p := List.inj_on_of_nodup_map h.sound.ids hq hp hid
    rw [hpq] at hsq
    exact ⟨s'.id, hsq, mem_materialize_sources.mpr ⟨s', hs', rfl⟩⟩
  · show p.id = idOf g.2 ∨ (flattenAliases st.aliases).get? p.id = some (idOf g.2)
    refine (h.placed.kept g hg p.id hin).2.imp_right fun hget => ?_
    rw [get?_flattenAliases h.shallow, aliasEnd, hget]
    show some ((st.aliases.get? (idOf g.2)).getD (idOf g.2)) = _
    rw [h.get?_idOf hg]
    rfl

theorem candidates_next (h : Built parse sources previous idOf st) (hg : g ∈ ranked (groupsOf parse sources) previous) :
    ascending (g.1.1.filterMap fun s =>
      sourceToOld { st with aliases := flattenAliases st.aliases } s.id) = [idOf g.2] := by
  have hold : ∀ s ∈ g.1.1, sourceToOld { st with aliases := flattenAliases st.aliases } s.id = some (idOf g.2) := by
    intro s hs
    refine h.next_sound.sourceToOld_eq (h.mem_people.mpr ⟨g, hg, rfl⟩) ?_
    exact mem_materialize_sources.mpr ⟨s, hs, rfl⟩
  have hne := (partitions_groupsOf parse h.ids).nonempty _ (mem_groupsOf hg)
  have hmem : ∀ id, id ∈ ascending (g.1.1.filterMap fun s =>
      sourceToOld { st with aliases := flattenAliases st.aliases } s.id) ↔ id = idOf g.2 := by
    intro id
    rw [mem_ascending, List.mem_filterMap]
    constructor
    · rintro ⟨s, hs, hid⟩
      rw [hold s hs, Option.some.injEq] at hid
      exact hid.symm
    · rintro rfl
      obtain ⟨s, hs⟩ := List.exists_mem_of_ne_nil _ hne
      exact ⟨s, hs, hold s hs⟩
  exact List.perm_singleton.mp ((List.perm_ext_iff_of_nodup (nodup_ascending _)
    (List.nodup_singleton _)).mpr fun id => by rw [hmem, List.mem_singleton])

theorem assignId_next (h : Built parse sources previous idOf st)
    (hg : g ∈ ranked (groupsOf parse sources) previous) (acc : PeopleSnapshot) :
    assignId parse (ownersOf parse sources { st with aliases := flattenAliases st.aliases }) acc
      ((g.1.1, [idOf g.2]), g.2) =
      .ok { acc with people := acc.people ++ [materializePerson parse (idOf g.2) g.1.1] } := by
  let next : PeopleSnapshot := { st with aliases := flattenAliases st.aliases }
  have hrow : ∀ g ∈ ranked (groupsOf parse sources) previous,
      ((g.1.1, [idOf g.2]), g.2) ∈ ranked (groupsOf parse sources) next :=
    fun g hg => mem_ranked.mpr ⟨(mem_ranked.mp hg).1, (h.candidates_next hg).symm⟩
  have hne := (partitions_groupsOf parse h.ids).nonempty _ (mem_groupsOf hg)
  obtain ⟨s, hs⟩ := List.exists_mem_of_ne_nil _ hne
  have hold : sourceToOld next s.id = some (idOf g.2) := by
    refine h.next_sound.sourceToOld_eq (h.mem_people.mpr ⟨g, hg, rfl⟩) ?_
    exact mem_materialize_sources.mpr ⟨s, hs, rfl⟩
  obtain ⟨g₁, hg₁, hin⟩ := exists_owner (mem_groupsOf hg) hs hold
  -- the owner of the id is a group that was given it, so this one
  have hindex : g₁.2 = g.2 := by
    obtain ⟨hc₁, hids₁⟩ := mem_ranked.mp hg₁
    obtain ⟨g₂, hg₂, hc₂⟩ := exists_ranked (mem_groupsOf hg₁) previous
    obtain ⟨s₁, hs₁, p, hp, hsp, hid⟩ := person_of_eligible hg₁ hin
    obtain ⟨g₃, hg₃, rfl⟩ := h.mem_people.mp hp
    have heq : g₃ = g := h.idOf_injective hg₃ hg hid
    rw [heq] at hsp
    have hs₁g : s₁ ∈ g.1.1 := by
      refine (h.source_mem_iff hg ?_).mp hsp
      rw [← hc₂] at hs₁
      exact h.sources_of_group hg₂ hs₁
    have hsame : g₂ = g := h.ranked_eq_of_source hg₂ hg (hc₂ ▸ hs₁) hs₁g
    have hcomp : g₁.1.1 = g.1.1 := by rw [← hc₂, hsame]
    have hnodup : (groupsOf parse sources).Nodup := by
      rw [← ranked_components (groupsOf parse sources) previous]
      refine List.Nodup.map_on ?_ (List.Nodup.of_map _ (ranked_nodup _ previous))
      intro a ha b hb hab
      obtain ⟨x, hx⟩ := List.exists_mem_of_ne_nil _ ((partitions_groupsOf parse h.ids).nonempty _ (mem_groupsOf ha))
      exact h.ranked_eq_of_source ha hb hx (hab ▸ hx)
    obtain ⟨hlt, -⟩ := List.getElem?_eq_some_iff.mp hc₁
    refine (List.getElem?_inj hlt hnodup).mp ?_
    rw [hc₁, (mem_ranked.mp hg).1, hcomp]
  have howner : (ownersOf parse sources next).get? (idOf g.2) = some g.2 := by
    have hget := of_decide_eq_true (List.mem_filter.mp hin).2
    rw [hindex] at hget
    exact hget
  have hfilter : [idOf g.2].filter (fun old =>
      decide ((ownersOf parse sources next).get? old = some g.2)) = [idOf g.2] := by
    rw [List.filter_cons, if_pos (decide_eq_true howner), List.filter_nil]
  show assignId parse (ownersOf parse sources next) acc ((g.1.1, [idOf g.2]), g.2) = _
  rw [assignId]
  simp only [hfilter]
  rfl

theorem stable (h : Built parse sources previous idOf st) :
    rebuildPeople parse sources { st with aliases := flattenAliases st.aliases } =
      .ok { st with aliases := flattenAliases st.aliases } := by
  let next : PeopleSnapshot := { st with aliases := flattenAliases st.aliases }
  have hranked : ranked (groupsOf parse sources) next =
      (ranked (groupsOf parse sources) previous).map fun g => ((g.1.1, [idOf g.2]), g.2) := by
    have hzip : ranked (groupsOf parse sources) next = (ranked (groupsOf parse sources) previous).map fun g =>
          ((g.1.1, ascending (g.1.1.filterMap fun s => sourceToOld next s.id)), g.2) := by
      rw [ranked_eq, ranked_eq, List.zipIdx_map, List.zipIdx_map, List.map_map]
      rfl
    rw [hzip]
    refine List.map_congr_left fun g hg => ?_
    rw [h.candidates_next hg]
  have hfold : ∀ (gs : List Ranked) (acc : PeopleSnapshot), (∀ g ∈ gs, g ∈ ranked (groupsOf parse sources) previous) →
      (gs.map fun g => ((g.1.1, [idOf g.2]), g.2)).foldlM (assignId parse (ownersOf parse sources next)) acc =
        .ok { acc with
          people := acc.people ++ (gs.map fun g => materializePerson parse (idOf g.2) g.1.1) } := by
    intro gs
    induction gs with
    | nil =>
      intro acc _
      rw [List.map_nil, List.foldlM_nil, List.map_nil, List.append_nil]
      rfl
    | cons g rest ih =>
      intro acc hgs
      rw [List.map_cons, List.foldlM_cons, h.assignId_next (hgs g List.mem_cons_self)]
      show List.foldlM _ _ _ = _
      rw [ih _ fun g hg => hgs g (List.mem_cons_of_mem _ hg)]
      simp only [List.append_assoc, List.singleton_append, List.map_cons]
  rw [rebuildPeople_eq]
  show Except.map _ ((ranked (groupsOf parse sources) next).foldlM (assignId parse (ownersOf parse sources next)) _) = _
  rw [hranked, hfold _ _ fun g hg => hg, h.next_sound.firstFree_eq, List.nil_append, ← h.placed.people]
  have hflat : flattenAliases (flattenAliases st.aliases) = flattenAliases st.aliases :=
    flattenAliases_of_flat h.next_sound.flat
  show Except.ok (⟨st.people, flattenAliases (flattenAliases st.aliases), st.nextId⟩ : PeopleSnapshot) = _
  rw [hflat]

end Built

/-! ## The order of the sources -/

variable {sources' : List PersonSource}

theorem groupsOf_perm (hids : (sources.map PersonSource.id).Nodup)
    (hperm : sources'.Perm sources) : groupsOf parse sources' = groupsOf parse sources := by
  have htotal : Std.Total fun l r : PersonSource => l.id ≤ r.id := ⟨fun l r => le_total l.id r.id⟩
  have htrans : IsTrans PersonSource fun l r => l.id ≤ r.id := ⟨fun _ _ _ => le_trans⟩
  have hsorted := fun l : List PersonSource =>
    List.pairwise_insertionSort (fun l r : PersonSource => l.id ≤ r.id) l
  have hsort := fun l : List PersonSource =>
    List.perm_insertionSort (fun l r : PersonSource => l.id ≤ r.id) l
  have heq : sources'.insertionSort (fun l r => l.id ≤ r.id) = sources.insertionSort fun l r => l.id ≤ r.id := by
    refine List.Perm.eq_of_pairwise ?_ (hsorted sources') (hsorted sources)
      ((hsort sources').trans (hperm.trans (hsort sources).symm))
    intro a b ha hb hab hba
    have ha' := hperm.mem_iff.mp ((hsort sources').mem_iff.mp ha)
    have hb' := (hsort sources).mem_iff.mp hb
    exact List.inj_on_of_nodup_map hids ha' hb' (le_antisymm hab hba)
  rw [groupsOf, groupsOf, heq]

theorem rebuild_perm (hids : (sources.map PersonSource.id).Nodup)
    (hperm : sources'.Perm sources) (previous : PeopleSnapshot) :
    rebuildPeople parse sources' previous = rebuildPeople parse sources previous := by
  rw [rebuildPeople_eq, rebuildPeople_eq, ownersOf, ownersOf, groupsOf_perm hids hperm]

/-! ## Histories -/

/-- What a rebuild leaves. -/
structure Consistent (parse : String → Option CanonicalEmail) (sources : List PersonSource)
    (previous next : PeopleSnapshot) : Prop where
  belongs : ∀ s ∈ sources, ∃! p, p ∈ next.people ∧ s.id ∈ p.sources
  backed : ∀ p ∈ next.people, ∀ id ∈ p.sources, ∃ s ∈ sources, s.id = id
  linked : ∀ s ∈ sources, ∀ s' ∈ sources,
    (∃ p ∈ next.people, s.id ∈ p.sources ∧ s'.id ∈ p.sources) ↔ Connected parse sources s s'
  emails : ∀ s ∈ sources, ∀ email ∈ emailsOf parse s,
    ∃! p, p ∈ next.people ∧ email ∈ p.emails.map SourcedValue.value
  distinct : (next.people.map Person.id).Nodup
  current : ∀ p ∈ next.people, next.aliases.get? p.id = none
  below : ∀ p ∈ next.people, p.id < next.nextId
  resolved : ∀ k t, next.aliases.get? k = some t → next.aliases.get? t = none
  ordered : ∀ sources', sources'.Perm sources →
    rebuildPeople parse sources' previous = rebuildPeople parse sources previous
  stable : rebuildPeople parse sources next = .ok next
  continued : ∀ p ∈ previous.people, (∃ s ∈ sources, s.id ∈ p.sources) →
    ∃ q ∈ next.people, (∃ id ∈ p.sources, id ∈ q.sources) ∧
      (p.id = q.id ∨ next.aliases.get? p.id = some q.id)

/-- The rebuild gives someone an id that no one had before it. -/
def Mints (previous next : PeopleSnapshot) (id : PersonId) : Prop :=
  (∃ p ∈ next.people, p.id = id) ∧ ∀ p ∈ previous.people, p.id ≠ id

theorem Built.consistent {idOf : Nat → PersonId} {st : PeopleSnapshot} (h : Built parse sources previous idOf st) :
    Consistent parse sources previous { st with aliases := flattenAliases st.aliases } := by
  have hpart := partitions_groupsOf parse h.ids
  have hgroup : ∀ s ∈ sources, ∃ g ∈ ranked (groupsOf parse sources) previous, s ∈ g.1.1 := by
    intro s hs
    obtain ⟨c, hc, hsc⟩ := hpart.cover s hs
    obtain ⟨g, hg, rfl⟩ := Built.exists_ranked hc previous
    exact ⟨g, hg, hsc⟩
  refine ⟨?_, ?_, ?_, ?_, h.next_sound.ids, h.next_sound.current, h.next_sound.below,
    h.next_sound.flat, fun _ hperm => rebuild_perm h.ids hperm previous, h.stable, ?_⟩
  · intro s hs
    obtain ⟨g, hg, hsg⟩ := hgroup s hs
    refine ⟨_, ⟨h.mem_people.mpr ⟨g, hg, rfl⟩, (h.source_mem_iff hg hs).mpr hsg⟩, ?_⟩
    rintro p ⟨hp, hsp⟩
    obtain ⟨g', hg', rfl⟩ := h.mem_people.mp hp
    rw [h.ranked_eq_of_source hg' hg ((h.source_mem_iff hg' hs).mp hsp) hsg]
  · intro p hp id hid
    obtain ⟨g, hg, rfl⟩ := h.mem_people.mp hp
    obtain ⟨s, hs, rfl⟩ := mem_materialize_sources.mp hid
    exact ⟨s, h.sources_of_group hg hs, rfl⟩
  · intro s hs s' hs'
    constructor
    · rintro ⟨p, hp, hsp, hsp'⟩
      obtain ⟨g, hg, rfl⟩ := h.mem_people.mp hp
      have hsg := (h.source_mem_iff hg hs).mp hsp
      have hsg' := (h.source_mem_iff hg hs').mp hsp'
      exact ((hpart.connected _ (Built.mem_groupsOf hg) s hsg s').mp hsg').2
    · intro hconnected
      obtain ⟨g, hg, hsg⟩ := hgroup s hs
      have hsg' := (hpart.connected _ (Built.mem_groupsOf hg) s hsg s').mpr ⟨hs', hconnected⟩
      exact ⟨_, h.mem_people.mpr ⟨g, hg, rfl⟩, (h.source_mem_iff hg hs).mpr hsg, (h.source_mem_iff hg hs').mpr hsg'⟩
  · intro s hs email hemail
    obtain ⟨g, hg, hsg⟩ := hgroup s hs
    refine ⟨_, ⟨h.mem_people.mpr ⟨g, hg, rfl⟩, mem_materialize_emails.mpr ⟨s, hsg, hemail⟩⟩, ?_⟩
    rintro p ⟨hp, hpe⟩
    obtain ⟨g', hg', rfl⟩ := h.mem_people.mp hp
    obtain ⟨s', hsg', hemail'⟩ := mem_materialize_emails.mp hpe
    have hs' := h.sources_of_group hg' hsg'
    -- the shared address connects the two sources, so their groups are one
    have hin := (hpart.connected _ (Built.mem_groupsOf hg) s hsg s').mpr ⟨hs', .rel _ _ ⟨hs, hs', email, hemail, hemail'⟩⟩
    rw [h.ranked_eq_of_source hg' hg hsg' hin]
  · rintro p hp ⟨s, hs, hsp⟩
    exact h.continued hp hs hsp

section Runs

theorem Rebuilds.sound (hs : Sound previous) (h : Rebuilds parse previous sources next) :
    Sound next ∧ previous.nextId ≤ next.nextId := by
  obtain ⟨idOf, st, hbuilt, rfl⟩ := exists_built hs h
  exact ⟨hbuilt.next_sound, hbuilt.placed.nextId⟩

theorem Rebuilds.mints (hs : Sound previous) (h : Rebuilds parse previous sources next)
    {id : PersonId} (hid : Mints previous next id) : previous.nextId ≤ id ∧ id < next.nextId := by
  obtain ⟨idOf, st, hbuilt, rfl⟩ := exists_built hs h
  obtain ⟨⟨p, hp, rfl⟩, hnew⟩ := hid
  obtain ⟨g, hg, rfl⟩ := hbuilt.mem_people.mp hp
  refine ⟨?_, hbuilt.idOf_lt hg⟩
  rcases hbuilt.idOf_cases hg with ⟨-, q, hq, hid⟩ | ⟨-, hfree⟩
  · exact absurd hid (hnew q hq)
  · exact hfree

theorem history_sound {s s' : PeopleSnapshot} {history : List (List PersonSource)}
    (hrun : Run (Rebuilds parse) s history s') (hs : Sound s) : Sound s' ∧ s.nextId ≤ s'.nextId := by
  refine hrun.preserves (I := fun x => Sound x ∧ s.nextId ≤ x.nextId) ?_ ⟨hs, le_refl _⟩
  rintro x sources y ⟨hx, hle⟩ hstep
  obtain ⟨hy, hle'⟩ := hstep.sound hx
  exact ⟨hy, Nat.le_trans hle hle'⟩

/-- Every rebuild of a history leaves consistent people, and none of the ids it mints is
minted again. -/
theorem people_stay_consistent {before : List (List PersonSource)}
    (hbefore : Run (Rebuilds parse) PeopleSnapshot.empty before previous)
    (hstep : Rebuilds parse previous sources next) :
    Consistent parse sources previous next ∧ ∀ after later sources' last, Run (Rebuilds parse) next after later →
        Rebuilds parse later sources' last →
        ∀ id, Mints previous next id → ¬ Mints later last id := by
  have hsound := (history_sound hbefore sound_empty).1
  constructor
  · obtain ⟨idOf, st, hbuilt, rfl⟩ := exists_built hsound hstep
    exact hbuilt.consistent
  · intro after later sources' last hafter hlast id hid hagain
    obtain ⟨hlater, hle⟩ := history_sound hafter (hstep.sound hsound).1
    have hlt := (hstep.mints hsound hid).2
    have hge := (hlast.mints hlater hagain).1
    exact absurd (Nat.lt_of_lt_of_le hlt (Nat.le_trans hle hge)) (Nat.lt_irrefl id)

end Runs

namespace Sample

def card (emails : List String) : ContactCard := ⟨.individual, none, emails, [], [], []⟩

def saved (contact : ContactId) (emails : List String) : PersonSource :=
  ⟨toLex ("a", contact), card emails, .personal, true⟩

/-- Two cards of one person, and a third that a shared address later joins to them. -/
def apart : List PersonSource := [saved "c2" ["x@h"], saved "c1" ["x@h"], saved "c3" ["z@h"]]

def joined : List PersonSource := [saved "c2" ["x@h", "z@h"], saved "c1" ["x@h"], saved "c3" ["z@h"]]

def afterApart : PeopleSnapshot :=
  ⟨[materializePerson some 1 [saved "c1" ["x@h"], saved "c2" ["x@h"]],
    materializePerson some 2 [saved "c3" ["z@h"]]], Table.empty, 3⟩

def afterJoined : PeopleSnapshot :=
  ⟨[materializePerson some 1 [saved "c1" ["x@h"], saved "c2" ["x@h", "z@h"], saved "c3" ["z@h"]]],
    Table.empty.insert 2 1, 3⟩

theorem apart_rebuilds : Rebuilds some PeopleSnapshot.empty apart afterApart := ⟨by decide, rfl⟩

theorem joined_rebuilds : Rebuilds some afterApart joined afterJoined := ⟨by decide, rfl⟩

end Sample

open Sample in
theorem people_stay_consistent_joined : Consistent some joined afterApart afterJoined :=
  (people_stay_consistent (.cons apart_rebuilds (.nil _)) joined_rebuilds).1

end People
end SyncEngine
