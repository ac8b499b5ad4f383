import SyncEngine.People.Derive

/-!
# Handing out the ids

The groups are served in order.  `Placed` says what holds once some of them are: a group
that owns ids of earlier people has the lowest of them and the others are retired to it, and
a group that owns none has an id no one had.
-/

namespace SyncEngine
namespace People

/-!
## Flattening the aliases

A rebuild adds aliases from retired ids to kept ones.  The older aliases were flat, so after
that a chain has at most two steps.  Following every chain to its end leaves each alias one
step from an id that is no alias.
-/

/-- An alias leads to an id that is none, in one step or two. -/
def Shallow (aliases : Table PersonId) : Prop :=
  ∀ k t, aliases.get? k = some t → aliases.get? t = none ∨
    ∃ t', aliases.get? t = some t' ∧ aliases.get? t' = none

/-- Where an alias of at most two steps ends. -/
def aliasEnd (aliases : Table PersonId) (k : PersonId) : Option PersonId :=
  (aliases.get? k).map fun t => (aliases.get? t).getD t

def flattenKey (aliases : Table PersonId) (key : PersonId) : Table PersonId :=
  match aliases.get? key with
  | none => aliases
  | some target =>
    let target := aliasTarget aliases (aliases.rows.length + 1) target
    if key ≠ target then aliases.insert key target else aliases

theorem flattenAliases_eq (aliases : Table PersonId) :
    flattenAliases aliases = aliases.keys.foldl flattenKey aliases := rfl

section Steps

variable {aliases : Table PersonId} {key k t : PersonId}

theorem rows_length_pos (h : aliases.get? k = some t) : 0 < aliases.rows.length :=
  List.length_pos_of_mem ((aliases.get?_eq_some_iff).mp h)

theorem aliasTarget_eq (h : Shallow aliases) (hk : aliases.get? k = some t) :
    aliasTarget aliases (aliases.rows.length + 1) t = (aliases.get? t).getD t := by
  obtain ⟨n, hn⟩ := Nat.exists_eq_succ_of_ne_zero (rows_length_pos hk).ne'
  rcases h k t hk with hnone | ⟨t', ht', hnone⟩
  · rw [aliasTarget, hnone]
    rfl
  · rw [aliasTarget, ht', hn]
    show aliasTarget aliases (n + 1) t' = t'
    rw [aliasTarget, hnone]

theorem aliasEnd_ne (h : Shallow aliases) (hk : aliasEnd aliases k = some t) : aliases.get? t = none := by
  rw [aliasEnd, Option.map_eq_some_iff] at hk
  obtain ⟨s, hs, rfl⟩ := hk
  rcases h k s hs with hnone | ⟨s', hs', hnone⟩
  · rw [hnone]
    exact hnone
  · rw [hs']
    exact hnone

theorem get?_flattenKey (h : Shallow aliases) (j : PersonId) : (flattenKey aliases key).get? j =
      if j = key then aliasEnd aliases key else aliases.get? j := by
  rw [flattenKey]
  cases hkey : aliases.get? key with
  | none =>
    by_cases hj : j = key
    · rw [if_pos hj, hj, aliasEnd, hkey]
      rfl
    · rw [if_neg hj]
  | some t =>
    have hend : aliasEnd aliases key = some ((aliases.get? t).getD t) := by
      rw [aliasEnd, hkey]
      rfl
    have hne : key ≠ (aliases.get? t).getD t := by
      intro heq
      have hnone := aliasEnd_ne h hend
      rw [← heq, hkey] at hnone
      simp at hnone
    show (if key ≠ aliasTarget aliases (aliases.rows.length + 1) t then
      aliases.insert key (aliasTarget aliases (aliases.rows.length + 1) t) else aliases).get? j = _
    rw [aliasTarget_eq h hkey, if_pos hne, Table.get?_insert, hend]

theorem get?_flattenKey_eq_none (h : Shallow aliases) (j : PersonId) :
    (flattenKey aliases key).get? j = none ↔ aliases.get? j = none := by
  rw [get?_flattenKey h]
  by_cases hj : j = key
  · rw [if_pos hj, hj, aliasEnd, Option.map_eq_none_iff]
  · rw [if_neg hj]

theorem shallow_flattenKey (h : Shallow aliases) : Shallow (flattenKey aliases key) := by
  intro k t hk
  simp only [get?_flattenKey_eq_none h]
  rw [get?_flattenKey h] at hk
  by_cases hkey : k = key
  · rw [if_pos hkey] at hk
    exact Or.inl (aliasEnd_ne h hk)
  · rw [if_neg hkey] at hk
    rcases h k t hk with hnone | ⟨t', ht', hnone⟩
    · exact Or.inl hnone
    · by_cases ht : t = key
      · refine Or.inr ⟨t', ?_, hnone⟩
        rw [get?_flattenKey h, if_pos ht, ← ht, aliasEnd, ht']
        show some ((aliases.get? t').getD t') = some t'
        rw [hnone]
        rfl
      · refine Or.inr ⟨t', ?_, hnone⟩
        rw [get?_flattenKey h, if_neg ht, ht']

theorem aliasEnd_flattenKey (h : Shallow aliases) (j : PersonId) :
    aliasEnd (flattenKey aliases key) j = aliasEnd aliases j := by
  have hlast : ∀ t, aliasEnd aliases j = some t → aliases.get? t = none := fun t ht => aliasEnd_ne h ht
  rw [aliasEnd, get?_flattenKey h]
  by_cases hj : j = key
  · rw [if_pos hj]
    subst hj
    cases hend : aliasEnd aliases j with
    | none => rfl
    | some t =>
      have hnone : (flattenKey aliases j).get? t = none := (get?_flattenKey_eq_none h t).mpr (hlast t hend)
      show some (((flattenKey aliases j).get? t).getD t) = some t
      rw [hnone]
      rfl
  · rw [if_neg hj, aliasEnd]
    cases hget : aliases.get? j with
    | none => rfl
    | some t =>
      show some (((flattenKey aliases key).get? t).getD t) = some ((aliases.get? t).getD t)
      rw [get?_flattenKey h]
      by_cases ht : t = key
      · rw [if_pos ht, ← ht, aliasEnd]
        cases ht' : aliases.get? t with
        | none => rfl
        | some t' =>
          have hnone : aliases.get? t' = none := by
            refine hlast t' ?_
            rw [aliasEnd, hget]
            show some ((aliases.get? t).getD t) = _
            rw [ht']
            rfl
          show some (some ((aliases.get? t').getD t') |>.getD t) = _
          rw [hnone]
          rfl
      · rw [if_neg ht]

end Steps

theorem get?_foldl_flattenKey {aliases : Table PersonId} (h : Shallow aliases) (keys : List PersonId)
    (j : PersonId) : (keys.foldl flattenKey aliases).get? j =
      if j ∈ keys then aliasEnd aliases j else aliases.get? j := by
  induction keys generalizing aliases with
  | nil => simp
  | cons key rest ih =>
    rw [List.foldl_cons, ih (shallow_flattenKey h), aliasEnd_flattenKey h, get?_flattenKey h]
    by_cases hrest : j ∈ rest
    · rw [if_pos hrest, if_pos (List.mem_cons_of_mem _ hrest)]
    · rw [if_neg hrest]
      by_cases hj : j = key
      · rw [if_pos hj, if_pos (hj ▸ List.mem_cons_self), hj]
      · rw [if_neg hj, if_neg]
        intro hmem
        rcases List.mem_cons.mp hmem with heq | hmem
        · exact hj heq
        · exact hrest hmem

theorem get?_flattenAliases {aliases : Table PersonId} (h : Shallow aliases) (j : PersonId) :
    (flattenAliases aliases).get? j = aliasEnd aliases j := by
  rw [flattenAliases_eq, get?_foldl_flattenKey h]
  by_cases hj : j ∈ aliases.keys
  · rw [if_pos hj]
  · rw [if_neg hj, aliasEnd]
    have hnone : aliases.get? j = none := by
      rw [Table.get?_eq_none_iff]
      exact fun r hr heq => hj (List.mem_map.mpr ⟨r, hr, heq⟩)
    rw [hnone]
    rfl

theorem flattenAliases_of_flat {aliases : Table PersonId} (h : ∀ k t, aliases.get? k = some t → aliases.get? t = none) :
    flattenAliases aliases = aliases := by
  refine Table.ext_get? fun j => ?_
  rw [get?_flattenAliases fun k t hk => Or.inl (h k t hk), aliasEnd]
  cases hj : aliases.get? j with
  | none => rfl
  | some t =>
    show some ((aliases.get? t).getD t) = some t
    rw [h j t hj]
    rfl

/-- A group with the ids it may take and its place in the order. -/
abbrev Ranked := (List PersonSource × List PersonId) × Nat

/-- The ids a group takes over. -/
def eligible (owners : Table Nat) (group : Ranked) : List PersonId :=
  group.1.2.filter fun old => owners.get? old = some group.2

/-! ## Owners -/

theorem get?_foldl_own (ids : List PersonId) (index : Nat) (owners : Table Nat) (id : PersonId) :
    (ids.foldl (fun owners id =>
      if (owners.get? id).isSome then owners else owners.insert id index) owners).get? id =
      (owners.get? id).or (if id ∈ ids then some index else none) := by
  induction ids generalizing owners with
  | nil => simp
  | cons first rest ih =>
    rw [List.foldl_cons, ih]
    by_cases hsome : (owners.get? first).isSome
    · rw [if_pos hsome]
      by_cases hid : id = first
      · subst hid
        obtain ⟨k, hk⟩ := Option.isSome_iff_exists.mp hsome
        rw [hk, Option.some_or, Option.some_or]
      · simp [hid]
    · rw [if_neg hsome, Table.get?_insert]
      by_cases hid : id = first
      · subst hid
        rw [Option.not_isSome_iff_eq_none.mp hsome]
        simp
      · simp [hid]

theorem get?_oldIdOwners (candidates : List (List PersonId)) (id : PersonId) :
    (oldIdOwners candidates).get? id = candidates.findIdx? fun ids => id ∈ ids := by
  have hfold : ∀ (candidates : List (List PersonId)) (start : Nat) (owners : Table Nat),
      ((candidates.zipIdx start).foldl (fun owners c =>
        c.1.foldl (fun owners id =>
          if (owners.get? id).isSome then owners else owners.insert id c.2) owners) owners).get? id =
      (owners.get? id).or ((candidates.findIdx? fun ids => id ∈ ids).map (· + start)) := by
    intro candidates
    induction candidates with
    | nil => simp
    | cons ids rest ih =>
      intro start owners
      rw [List.zipIdx_cons, List.foldl_cons, ih, get?_foldl_own, List.findIdx?_cons]
      by_cases hid : id ∈ ids
      · simp [hid]
      · have hshift : (fun n => n + 1 + start) = fun n : Nat => n + (start + 1) := by
          funext n
          omega
        simp [hid, Function.comp_def, hshift]
  rw [oldIdOwners, hfold]
  simp [Table.get?_empty]

section Assign

variable {parse : String → Option CanonicalEmail} {owners : Table Nat} {st st' : PeopleSnapshot}
  {group : Ranked}

theorem assignId_cases (hnodup : group.1.2.Nodup) (h : assignId parse owners st group = .ok st') :
    (∃ keep, keep ∈ eligible owners group ∧ st'.people = st.people ++ [materializePerson parse keep group.1.1] ∧
      st'.nextId = st.nextId ∧ ∀ k, st'.aliases.get? k =
        if k ∈ eligible owners group ∧ k ≠ keep then some keep else st.aliases.get? k) ∨
    (eligible owners group = [] ∧ st.nextId ≠ 0 ∧
      st'.people = st.people ++ [materializePerson parse st.nextId group.1.1] ∧
      st'.nextId = st.nextId + 1 ∧ st'.aliases = st.aliases) := by
  have hinsert : ∀ (others : List PersonId) (keep : PersonId) (aliases : Table PersonId) (k : PersonId),
      (others.foldl (fun aliases retired => aliases.insert retired keep) aliases).get? k =
        if k ∈ others then some keep else aliases.get? k := by
    intro others keep
    induction others with
    | nil => simp
    | cons first rest ih =>
      intro aliases k
      rw [List.foldl_cons, ih, Table.get?_insert]
      by_cases hk : k = first
      · simp [hk]
      · simp [hk]
  rw [assignId] at h
  cases heligible : group.1.2.filter fun old => owners.get? old = some group.2 with
  | cons keep others =>
    have hin : ∀ k, k ∈ eligible owners group ↔ k = keep ∨ k ∈ others := by
      intro k
      rw [eligible, heligible, List.mem_cons]
    have hfresh : keep ∉ others := by
      have hsub := hnodup.filter fun old => decide (owners.get? old = some group.2)
      rw [heligible] at hsub
      exact (List.nodup_cons.mp hsub).1
    rw [heligible] at h
    injection h with h
    subst h
    left
    refine ⟨keep, (hin keep).mpr (Or.inl rfl), rfl, rfl, ?_⟩
    intro k
    show (others.foldl (fun aliases retired => aliases.insert retired keep) st.aliases).get? k = _
    rw [hinsert]
    by_cases hk : k ∈ others
    · rw [if_pos hk, if_pos ⟨(hin k).mpr (Or.inr hk), fun heq => hfresh (heq ▸ hk)⟩]
    · rw [if_neg hk, if_neg]
      rintro ⟨hkin, hne⟩
      rcases (hin k).mp hkin with heq | hk'
      · exact hne heq
      · exact hk hk'
  | nil =>
    rw [heligible] at h
    right
    have hempty : eligible owners group = [] := heligible
    simp only [PersonId.new, checkedSucc] at h
    by_cases hzero : st.nextId = 0
    · rw [if_pos hzero] at h
      exact absurd h (by simp [bind, Except.bind])
    · by_cases hroom : st.nextId + 1 < 2 ^ 64
      · rw [if_neg hzero, if_pos hroom] at h
        injection h with h
        subst h
        exact ⟨hempty, hzero, rfl, rfl, rfl⟩
      · rw [if_neg hzero, if_neg hroom] at h
        exact absurd h (by simp [bind, Except.bind])

end Assign

/-- What holds when the groups of `placed` have their ids: `idOf` at the place of each.
Ids from `free` on were not in use before. -/
structure Placed (parse : String → Option CanonicalEmail) (owners : Table Nat)
    (aliases : Table PersonId) (free : Nat) (placed : List Ranked) (idOf : Nat → PersonId)
    (st : PeopleSnapshot) : Prop where
  people : st.people = placed.map fun g => materializePerson parse (idOf g.2) g.1.1
  kept : ∀ g ∈ placed, ∀ old ∈ eligible owners g, idOf g.2 ∈ eligible owners g ∧
    (old = idOf g.2 ∨ st.aliases.get? old = some (idOf g.2))
  minted : ∀ g ∈ placed, eligible owners g = [] → free ≤ idOf g.2 ∧ idOf g.2 < st.nextId
  fresh : ∀ g ∈ placed, ∀ g' ∈ placed, eligible owners g = [] → eligible owners g' = [] →
    idOf g.2 = idOf g'.2 → g.2 = g'.2
  retired : ∀ k t, st.aliases.get? k = some t → aliases.get? k = some t ∨
    ∃ g ∈ placed, k ∈ eligible owners g ∧ k ≠ idOf g.2 ∧ t = idOf g.2
  aliases : ∀ k t, aliases.get? k = some t → (∀ g ∈ placed, k ∉ eligible owners g) →
    st.aliases.get? k = some t
  nextId : free ≤ st.nextId

section Fold

variable {parse : String → Option CanonicalEmail} {owners : Table Nat} {aliases : Table PersonId}
  {free : Nat} {placed : List Ranked} {idOf : Nat → PersonId} {st st' : PeopleSnapshot}

theorem eligible_index {g g' : Ranked} {old : PersonId} (h : old ∈ eligible owners g)
    (h' : old ∈ eligible owners g') : g.2 = g'.2 := by
  have hg := of_decide_eq_true (List.mem_filter.mp h).2
  have hg' := of_decide_eq_true (List.mem_filter.mp h').2
  rw [hg] at hg'
  exact Option.some.inj hg'

theorem Placed.assign {group : Ranked} (h : Placed parse owners aliases free placed idOf st)
    (hnew : ∀ g ∈ placed, g.2 ≠ group.2) (hnodup : group.1.2.Nodup) (hstep : assignId parse owners st group = .ok st') :
    ∃ idOf', (∀ g ∈ placed, idOf' g.2 = idOf g.2) ∧ Placed parse owners aliases free (placed ++ [group]) idOf' st' := by
  -- the new place gets the id, the others keep theirs
  have hold : ∀ (id : PersonId), ∀ g ∈ placed, Function.update idOf group.2 id g.2 = idOf g.2 :=
    fun id g hg => Function.update_of_ne (hnew g hg) _ _
  have hself : ∀ id : PersonId, Function.update idOf group.2 id group.2 = id := fun id => Function.update_self _ _ _
  have hpeople : ∀ id, (placed ++ [group]).map (fun g => materializePerson parse
      (Function.update idOf group.2 id g.2) g.1.1) =
      st.people ++ [materializePerson parse id group.1.1] := by
    intro id
    rw [List.map_append, h.people]
    congr 1
    · exact List.map_congr_left fun g hg => by rw [hold id g hg]
    · rw [List.map_singleton, hself]
  have hcases : ∀ {Q : Ranked → Prop}, (∀ g ∈ placed, Q g) → Q group → ∀ g ∈ placed ++ [group], Q g := by
    intro Q hQ hgroup g hg
    rcases List.mem_append.mp hg with hg | hg
    · exact hQ g hg
    · rw [List.mem_singleton.mp hg]
      exact hgroup
  rcases assignId_cases hnodup hstep with ⟨keep, hin, hp, hnext, halias⟩ | ⟨hempty, -, hp, hnext, halias⟩
  · refine ⟨Function.update idOf group.2 keep, hold keep, ?_, ?_, ?_, ?_, ?_, ?_, ?_⟩
    · rw [hpeople, hp]
    · refine hcases ?_ ?_
      · intro g hg old hmem
        rw [hold keep g hg]
        obtain ⟨hidin, hor⟩ := h.kept g hg old hmem
        refine ⟨hidin, hor.imp_right fun hget => ?_⟩
        rw [halias, if_neg]
        · exact hget
        · exact fun hc => hnew g hg (eligible_index hmem hc.1)
      · intro old hmem
        rw [hself]
        refine ⟨hin, ?_⟩
        by_cases heq : old = keep
        · exact Or.inl heq
        · right
          rw [halias, if_pos ⟨hmem, heq⟩]
    · refine hcases ?_ ?_
      · intro g hg hnone
        rw [hold keep g hg, hnext]
        exact h.minted g hg hnone
      · intro hnone
        rw [hnone] at hin
        exact absurd hin List.not_mem_nil
    · have hne : eligible owners group ≠ [] := fun hc => by
        rw [hc] at hin
        exact absurd hin List.not_mem_nil
      intro g hg g' hg' hnone hnone' heq
      rcases List.mem_append.mp hg with hg | hg
      · rcases List.mem_append.mp hg' with hg' | hg'
        · rw [hold keep g hg, hold keep g' hg'] at heq
          exact h.fresh g hg g' hg' hnone hnone' heq
        · rw [List.mem_singleton.mp hg'] at hnone'
          exact absurd hnone' hne
      · rw [List.mem_singleton.mp hg] at hnone
        exact absurd hnone hne
    · intro k t hk
      rw [halias] at hk
      by_cases hret : k ∈ eligible owners group ∧ k ≠ keep
      · rw [if_pos hret, Option.some.injEq] at hk
        refine Or.inr ⟨group, List.mem_append_right _ List.mem_cons_self, hret.1, ?_, ?_⟩
        · rw [hself]
          exact hret.2
        · rw [hself, hk]
      · rw [if_neg hret] at hk
        rcases h.retired k t hk with hk | ⟨g, hg, hmem, hne, ht⟩
        · exact Or.inl hk
        · refine Or.inr ⟨g, List.mem_append_left _ hg, hmem, ?_, ?_⟩
          · rw [hold keep g hg]
            exact hne
          · rw [hold keep g hg]
            exact ht
    · intro k t hk hno
      have hgroup : k ∉ eligible owners group := hno group (List.mem_append_right _ List.mem_cons_self)
      rw [halias, if_neg fun hc => hgroup hc.1]
      exact h.aliases k t hk fun g hg => hno g (List.mem_append_left _ hg)
    · rw [hnext]
      exact h.nextId
  · refine ⟨Function.update idOf group.2 st.nextId, hold _, ?_, ?_, ?_, ?_, ?_, ?_, ?_⟩
    · rw [hpeople, hp]
    · refine hcases ?_ ?_
      · intro g hg old hmem
        rw [hold _ g hg, halias]
        exact h.kept g hg old hmem
      · intro old hmem
        rw [hempty] at hmem
        exact absurd hmem List.not_mem_nil
    · refine hcases ?_ ?_
      · intro g hg hnone
        rw [hold _ g hg, hnext]
        have hmint := h.minted g hg hnone
        exact ⟨hmint.1, Nat.lt_succ_of_lt hmint.2⟩
      · intro _
        rw [hself, hnext]
        exact ⟨h.nextId, Nat.lt_succ_self _⟩
    · have hlt : ∀ g ∈ placed, eligible owners g = [] → idOf g.2 < st.nextId := fun g hg hnone => (h.minted g hg hnone).2
      intro g hg g' hg' hnone hnone' heq
      rcases List.mem_append.mp hg with hg | hg
      · rcases List.mem_append.mp hg' with hg' | hg'
        · rw [hold _ g hg, hold _ g' hg'] at heq
          exact h.fresh g hg g' hg' hnone hnone' heq
        · rw [List.mem_singleton.mp hg', hself, hold _ g hg] at heq
          exact absurd heq (Nat.ne_of_lt (hlt g hg hnone))
      · rcases List.mem_append.mp hg' with hg' | hg'
        · rw [List.mem_singleton.mp hg, hself, hold _ g' hg'] at heq
          exact absurd heq.symm (Nat.ne_of_lt (hlt g' hg' hnone'))
        · rw [List.mem_singleton.mp hg, List.mem_singleton.mp hg']
    · intro k t hk
      rw [halias] at hk
      rcases h.retired k t hk with hk | ⟨g, hg, hmem, hne, ht⟩
      · exact Or.inl hk
      · refine Or.inr ⟨g, List.mem_append_left _ hg, hmem, ?_, ?_⟩
        · rw [hold _ g hg]
          exact hne
        · rw [hold _ g hg]
          exact ht
    · intro k t hk hno
      rw [halias]
      exact h.aliases k t hk fun g hg => hno g (List.mem_append_left _ hg)
    · rw [hnext]
      have := h.nextId
      omega

theorem Placed.assignAll {rest : List Ranked} (h : Placed parse owners aliases free placed idOf st)
    (hnodup : ((placed ++ rest).map Prod.snd).Nodup) (hids : ∀ g ∈ rest, g.1.2.Nodup)
    (hfold : rest.foldlM (assignId parse owners) st = .ok st') :
    ∃ idOf', Placed parse owners aliases free (placed ++ rest) idOf' st' := by
  induction rest generalizing placed idOf st with
  | nil =>
    injection hfold with hfold
    subst hfold
    rw [List.append_nil]
    exact ⟨idOf, h⟩
  | cons group rest ih =>
    rw [List.foldlM_cons] at hfold
    cases hstep : assignId parse owners st group with
    | error e =>
      rw [hstep] at hfold
      exact absurd hfold (by simp [bind, Except.bind])
    | ok mid =>
      rw [hstep] at hfold
      have hnew : ∀ g ∈ placed, g.2 ≠ group.2 := by
        intro g hg heq
        rw [List.map_append, List.nodup_append] at hnodup
        exact hnodup.2.2 g.2 (List.mem_map_of_mem hg) group.2 (List.mem_map_of_mem List.mem_cons_self) heq
      obtain ⟨idOf', -, hplaced⟩ := h.assign hnew (hids group List.mem_cons_self) hstep
      rw [List.append_cons] at hnodup ⊢
      exact ih hplaced hnodup (fun g hg => hids g (List.mem_cons_of_mem _ hg)) hfold

theorem placed_nil (parse : String → Option CanonicalEmail) (owners : Table Nat) (aliases : Table PersonId) (free : Nat) :
    Placed parse owners aliases free [] id ⟨[], aliases, free⟩ :=
  ⟨rfl, fun _ h => absurd h List.not_mem_nil, fun _ h => absurd h List.not_mem_nil,
    fun _ h => absurd h List.not_mem_nil, fun _ _ h => Or.inl h, fun _ _ h _ => h, le_refl _⟩

end Fold

end People
end SyncEngine
