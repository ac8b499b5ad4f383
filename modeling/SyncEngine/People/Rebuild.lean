import SyncEngine.People.Ids

/-!
# One rebuild

`Sound` is what every snapshot of a history keeps.  A rebuild of a sound snapshot is taken
apart once: its people are the groups with the ids of `Placed`, and from that follows that
the next snapshot is sound and how its people stand to the sources and to the people before.
-/

namespace SyncEngine
namespace People

/-- The people of a snapshot have ids and sources of their own, and its aliases lead past
themselves. -/
structure Sound (s : PeopleSnapshot) : Prop where
  ids : (s.people.map Person.id).Nodup
  sources : s.people.Pairwise fun p q => ∀ id ∈ p.sources, id ∉ q.sources
  below : ∀ p ∈ s.people, p.id < s.nextId
  current : ∀ p ∈ s.people, s.aliases.get? p.id = none
  retired : ∀ k t, s.aliases.get? k = some t → k < s.nextId
  flat : ∀ k t, s.aliases.get? k = some t → s.aliases.get? t = none
  positive : 1 ≤ s.nextId

theorem sound_empty : Sound PeopleSnapshot.empty where
  ids := List.nodup_nil
  sources := List.Pairwise.nil
  below _ h := absurd h List.not_mem_nil
  current _ h := absurd h List.not_mem_nil
  retired _ _ h := absurd h (by simp [PeopleSnapshot.empty])
  flat _ _ h := absurd h (by simp [PeopleSnapshot.empty])
  positive := le_refl 1

section Sound

variable {s : PeopleSnapshot} {p q : Person}

theorem Sound.eq_of_source (h : Sound s) (hp : p ∈ s.people) (hq : q ∈ s.people)
    {id : PersonSourceId} (hidp : id ∈ p.sources) (hidq : id ∈ q.sources) : p = q := by
  by_contra hne
  have : Std.Symm fun p q : Person => ∀ id ∈ p.sources, id ∉ q.sources := ⟨fun _ _ h id hid hid' => h id hid' hid⟩
  exact h.sources.forall hp hq hne id hidp hidq

theorem Sound.sourceToOld_eq (h : Sound s) (hp : p ∈ s.people) {id : PersonSourceId}
    (hid : id ∈ p.sources) : sourceToOld s id = some p.id := by
  rw [sourceToOld]
  cases hfind : s.people.reverse.find? fun person => id ∈ person.sources with
  | none =>
    have := List.find?_eq_none.mp hfind p (List.mem_reverse.mpr hp)
    exact absurd hid (by simpa using this)
  | some q =>
    have hq := List.mem_reverse.mp (List.mem_of_find?_eq_some hfind)
    have hidq : id ∈ q.sources := by simpa using List.find?_some hfind
    rw [h.eq_of_source hp hq hid hidq]
    rfl

theorem sourceToOld_eq_some {id : PersonSourceId} {old : PersonId}
    (h : sourceToOld s id = some old) : ∃ p ∈ s.people, id ∈ p.sources ∧ p.id = old := by
  rw [sourceToOld, Option.map_eq_some_iff] at h
  obtain ⟨p, hp, rfl⟩ := h
  exact ⟨p, List.mem_reverse.mp (List.mem_of_find?_eq_some hp), by simpa using List.find?_some hp,
    rfl⟩

theorem Sound.firstFree_eq (h : Sound s) : firstFree s = s.nextId := by
  rw [firstFree]
  apply max_eq_left
  cases hmax : (s.people.map fun person => person.id + 1).max? with
  | none => exact h.positive
  | some m =>
    have hin := List.max?_mem hmax
    obtain ⟨p, hp, rfl⟩ := List.mem_map.mp hin
    exact h.below p hp

end Sound

/-! ## The groups with their candidates -/

theorem mem_ascending {α : Type} [LinearOrder α] {l : List α} {a : α} : a ∈ ascending l ↔ a ∈ l := by
  rw [ascending, (List.perm_insertionSort _ _).mem_iff, List.mem_dedup]

theorem nodup_ascending {α : Type} [LinearOrder α] (l : List α) : (ascending l).Nodup :=
  (List.perm_insertionSort _ _).nodup_iff.mpr l.nodup_dedup

/-- The groups in order, with the ids each may take. -/
def ranked (components : List (List PersonSource)) (previous : PeopleSnapshot) : List Ranked :=
  (components.zip (priorComponentCandidates components previous)).zipIdx

section Ranked

variable {components : List (List PersonSource)} {previous : PeopleSnapshot} {g : Ranked}

theorem ranked_eq (components : List (List PersonSource)) (previous : PeopleSnapshot) :
    ranked components previous = (components.map fun c => (c, ascending
      (c.filterMap fun source => sourceToOld previous source.id))).zipIdx := by
  rw [ranked, priorComponentCandidates]
  congr 1
  induction components with
  | nil => rfl
  | cons c rest ih => rw [List.map_cons, List.zip_cons_cons, ih, List.map_cons]

theorem ranked_components (components : List (List PersonSource)) (previous : PeopleSnapshot) :
    (ranked components previous).map (fun g => g.1.1) = components := by
  have hcomp : (fun g : Ranked => g.1.1) = Prod.fst ∘ Prod.fst := rfl
  rw [ranked_eq, hcomp, ← List.map_map, List.zipIdx_map_fst, List.map_map]
  exact List.map_id _

theorem ranked_nodup (components : List (List PersonSource)) (previous : PeopleSnapshot) :
    ((ranked components previous).map Prod.snd).Nodup := by
  rw [ranked_eq, List.zipIdx_map_snd]
  exact List.nodup_range'

theorem mem_ranked : g ∈ ranked components previous ↔ components[g.2]? = some g.1.1 ∧
    g.1.2 = ascending (g.1.1.filterMap fun source => sourceToOld previous source.id) := by
  obtain ⟨⟨c, ids⟩, k⟩ := g
  rw [ranked_eq, List.mem_zipIdx_iff_getElem?, List.getElem?_map, Option.map_eq_some_iff]
  constructor
  · rintro ⟨c', hc', heq⟩
    obtain ⟨rfl, rfl⟩ := Prod.mk.inj heq
    exact ⟨hc', rfl⟩
  · rintro ⟨hc, hids⟩
    exact ⟨c, hc, Prod.ext rfl hids.symm⟩

theorem ranked_eq_of_index {g' : Ranked} (hg : g ∈ ranked components previous)
    (hg' : g' ∈ ranked components previous) (h : g.2 = g'.2) : g = g' := by
  obtain ⟨hc, hids⟩ := mem_ranked.mp hg
  obtain ⟨hc', hids'⟩ := mem_ranked.mp hg'
  rw [h, hc', Option.some.injEq] at hc
  refine Prod.ext (Prod.ext hc.symm ?_) h
  rw [hids, hids', hc]

theorem person_of_eligible {owners : Table Nat} {old : PersonId}
    (hg : g ∈ ranked components previous) (hold : old ∈ eligible owners g) :
    ∃ s ∈ g.1.1, ∃ p ∈ previous.people, s.id ∈ p.sources ∧ p.id = old := by
  have hin := (List.mem_filter.mp hold).1
  rw [(mem_ranked.mp hg).2, mem_ascending, List.mem_filterMap] at hin
  obtain ⟨s, hs, hold⟩ := hin
  obtain ⟨p, hp, hsp, hid⟩ := sourceToOld_eq_some hold
  exact ⟨s, hs, p, hp, hsp, hid⟩

theorem exists_owner {c : List PersonSource} (hc : c ∈ components) {s : PersonSource} (hs : s ∈ c)
    {old : PersonId} (hold : sourceToOld previous s.id = some old) :
    ∃ g ∈ ranked components previous, old ∈ eligible (oldIdOwners (priorComponentCandidates components previous)) g := by
  have hsome : ((priorComponentCandidates components previous).findIdx? fun ids => old ∈ ids).isSome := by
    rw [List.findIdx?_isSome, List.any_eq_true]
    refine ⟨_, List.mem_map_of_mem hc, ?_⟩
    rw [decide_eq_true_eq, mem_ascending, List.mem_filterMap]
    exact ⟨s, hs, hold⟩
  obtain ⟨k, hk⟩ := Option.isSome_iff_exists.mp hsome
  have hspec := List.findIdx?_eq_some_iff_getElem.mp hk
  obtain ⟨hlt, hin, -⟩ := hspec
  have hlt' : k < components.length := by
    rw [priorComponentCandidates, List.length_map] at hlt
    exact hlt
  have hget : (priorComponentCandidates components previous)[k] = ascending
      (components[k].filterMap fun source => sourceToOld previous source.id) := by
    simp only [priorComponentCandidates, List.getElem_map]
  refine ⟨((components[k], (priorComponentCandidates components previous)[k]), k),
    mem_ranked.mpr ⟨List.getElem?_eq_getElem hlt', hget⟩, ?_⟩
  rw [eligible, List.mem_filter, decide_eq_true_eq, get?_oldIdOwners]
  exact ⟨by simpa using hin, hk⟩

end Ranked

/-! ## The values of a person -/

section Materialize

variable {parse : String → Option CanonicalEmail} {id : PersonId} {c : List PersonSource}

theorem mem_materialize_sources {source : PersonSourceId} :
    source ∈ (materializePerson parse id c).sources ↔ ∃ s ∈ c, s.id = source := by
  show source ∈ (c.map PersonSource.id).toFinset ↔ _
  rw [List.mem_toFinset, List.mem_map]

theorem mem_materialize_emails {email : CanonicalEmail} :
    email ∈ (materializePerson parse id c).emails.map SourcedValue.value ↔ ∃ s ∈ c, email ∈ emailsOf parse s := by
  show email ∈ (sourcedEmails parse c).map SourcedValue.value ↔ _
  rw [sourcedEmails, List.map_map]
  have hid : (SourcedValue.value ∘ fun email => (⟨email, (((c.flatMap fun source =>
      (emailsOf parse source).map fun email => (email, source.id)).filter
        fun c => c.1 = email).map Prod.snd).toFinset⟩ : SourcedValue)) = fun email => email := rfl
  rw [hid, List.map_id', mem_ascending, List.mem_map]
  constructor
  · rintro ⟨⟨e, i⟩, he, rfl⟩
    obtain ⟨s, hs, he⟩ := List.mem_flatMap.mp he
    obtain ⟨e', he', heq⟩ := List.mem_map.mp he
    obtain ⟨rfl, rfl⟩ := Prod.mk.inj heq
    exact ⟨s, hs, he'⟩
  · rintro ⟨s, hs, he⟩
    exact ⟨(email, s.id), List.mem_flatMap.mpr ⟨s, hs, List.mem_map_of_mem he⟩, rfl⟩

end Materialize

/-! ## The rebuild taken apart -/

def groupsOf (parse : String → Option CanonicalEmail) (sources : List PersonSource) :
    List (List PersonSource) :=
  collectComponents (sources.insertionSort fun left right => left.id ≤ right.id)
    (joinSources parse (sources.insertionSort fun left right => left.id ≤ right.id)).forest

/-- Who owns the ids of the people before. -/
def ownersOf (parse : String → Option CanonicalEmail) (sources : List PersonSource)
    (previous : PeopleSnapshot) : Table Nat :=
  oldIdOwners (priorComponentCandidates (groupsOf parse sources) previous)

section Parts

variable {parse : String → Option CanonicalEmail} {sources : List PersonSource}
  {previous next : PeopleSnapshot}

theorem rebuildPeople_eq (parse : String → Option CanonicalEmail) (sources : List PersonSource)
    (previous : PeopleSnapshot) : rebuildPeople parse sources previous =
      ((ranked (groupsOf parse sources) previous).foldlM (assignId parse (ownersOf parse sources previous))
        ⟨[], previous.aliases, firstFree previous⟩).map fun assigned =>
          { assigned with aliases := flattenAliases assigned.aliases } := by
  rw [rebuildPeople]
  cases h : (ranked (groupsOf parse sources) previous).foldlM (assignId parse (ownersOf parse sources previous))
    ⟨[], previous.aliases, firstFree previous⟩ with
  | error e =>
    rw [ranked, groupsOf] at h
    exact congrArg (fun x => x >>= _) h
  | ok assigned =>
    rw [ranked, groupsOf] at h
    exact congrArg (fun x => x >>= _) h

theorem nodup_of_ids (hids : (sources.map PersonSource.id).Nodup) : sources.Nodup := List.Nodup.of_map _ hids

theorem partitions_groupsOf (parse : String → Option CanonicalEmail) (hids : (sources.map PersonSource.id).Nodup) :
    Partitions parse sources (groupsOf parse sources) := by
  have hperm := List.perm_insertionSort (fun l r : PersonSource => l.id ≤ r.id) sources
  have hnodup := hperm.nodup_iff.mpr (nodup_of_ids hids)
  have hp := partitions_collectComponents parse hnodup
  have hmem : ∀ s, s ∈ sources.insertionSort (fun left right => left.id ≤ right.id) ↔ s ∈ sources :=
    fun s => hperm.mem_iff
  refine ⟨hp.nonempty, ?_, ?_, hp.apart⟩
  · intro c hc s hs s'
    rw [hp.connected c hc s hs s', hmem, Connected.congr hmem]
  · intro s hs
    exact hp.cover s ((hmem s).mpr hs)

theorem rebuild_placed (h : rebuildPeople parse sources previous = .ok next) :
    ∃ idOf st, Placed parse (ownersOf parse sources previous) previous.aliases (firstFree previous)
      (ranked (groupsOf parse sources) previous) idOf st ∧
      next = { st with aliases := flattenAliases st.aliases } := by
  rw [rebuildPeople_eq] at h
  cases hfold : (ranked (groupsOf parse sources) previous).foldlM (assignId parse (ownersOf parse sources previous))
      ⟨[], previous.aliases, firstFree previous⟩ with
  | error e =>
    rw [hfold] at h
    exact absurd h (by simp [Except.map])
  | ok st =>
    rw [hfold] at h
    injection h with h
    have hnodup : (([] ++ ranked (groupsOf parse sources) previous).map Prod.snd).Nodup := ranked_nodup _ _
    obtain ⟨idOf, hplaced⟩ := (placed_nil parse (ownersOf parse sources previous) previous.aliases
      (firstFree previous)).assignAll hnodup
      (fun g hg => (mem_ranked.mp hg).2 ▸ nodup_ascending _) hfold
    exact ⟨idOf, st, hplaced, h.symm⟩

end Parts

end People
end SyncEngine
