import Mathlib
import SyncEngine.Library.Keyed
import SyncEngine.Library.UnionFind

/-!
# Grouping items by the labels they share

A pass over `n` items with lists of labels remembers an item for each label and unites the next one that carries it
with that item.  `link` remembers the first item of a label and `chain` the last.  A second pass collects the items
under their roots.

`pass_root_iff` says what either pass achieves: two items have one root exactly when a chain of shared labels connects
them.  `mem_groups` says that the groups are the classes.
-/

namespace SyncEngine

open Keyed

open Relation

variable {n : Nat} {κ : Type} [DecidableEq κ]

structure Linking (n : Nat) (κ : Type) where
  forest : UnionFind n
  seen : List (κ × Fin n)

namespace Linking

def start : Linking n κ := ⟨UnionFind.new n, []⟩

/-- Item `i` carries `label`. -/
def touch (s : Linking n κ) (i : Fin n) (label : κ) : Linking n κ :=
  match s.seen.lookup label with
  | some other => { s with forest := s.forest.union i other }
  | none => { s with seen := (label, i) :: s.seen }

def link (labels : Fin n → List κ) : Linking n κ :=
  (List.finRange n).foldl
    (fun s i => (labels i).foldl (fun s label => s.touch i label) s) start

/-- Item `i` carries `label`, and takes over from the item last visited with it. -/
def follow (s : Linking n κ) (i : Fin n) (label : κ) : Linking n κ :=
  match s.seen.lookup label with
  | some other => ⟨s.forest.unionLow i other, (label, i) :: s.seen⟩
  | none => ⟨s.forest, (label, i) :: s.seen⟩

def chain (labels : Fin n → List κ) : Linking n κ :=
  (List.finRange n).foldl
    (fun s i => (labels i).foldl (fun s label => s.follow i label) s) start

/-- Two items carry a label in common among the pairs visited. -/
def Together (visited : List (Fin n × κ)) (i j : Fin n) : Prop :=
  ∃ label, (i, label) ∈ visited ∧ (j, label) ∈ visited

/-- What holds after a list of visits: the trees are the classes, and a label is remembered
with an item that carries it from its first visit on. -/
structure Visited (s : Linking n κ) (visited : List (Fin n × κ)) : Prop where
  joined : ∀ i j, s.forest.root i = s.forest.root j ↔ EqvGen (Together visited) i j
  carries : ∀ label i, s.seen.lookup label = some i → (i, label) ∈ visited
  remembered : ∀ label i, (i, label) ∈ visited → ∃ j, s.seen.lookup label = some j

theorem visited_start : Visited (start : Linking n κ) [] where
  joined i j := by
    have hroot : ∀ i : Fin n, (UnionFind.new n).root i = i := fun i => UnionFind.root_of_parent_eq _ rfl
    show (UnionFind.new n).root i = (UnionFind.new n).root j ↔ _
    rw [hroot, hroot]
    constructor
    · rintro rfl
      exact .refl i
    · intro h
      induction h with
      | rel _ _ h =>
        obtain ⟨_, h, _⟩ := h
        exact absurd h List.not_mem_nil
      | refl _ => rfl
      | symm _ _ _ ih => exact ih.symm
      | trans _ _ _ _ _ ih₁ ih₂ => exact ih₁.trans ih₂
  carries _ _ h := by simp [start] at h
  remembered _ _ h := absurd h List.not_mem_nil

omit [DecidableEq κ] in
theorem eqvGen_mono_visit {visited : List (Fin n × κ)} (v : Fin n × κ) {a b : Fin n}
    (h : EqvGen (Together visited) a b) : EqvGen (Together (v :: visited)) a b := by
  refine h.mono ?_
  rintro a b ⟨label, ha, hb⟩
  exact ⟨label, List.mem_cons_of_mem _ ha, List.mem_cons_of_mem _ hb⟩

variable {u : UnionFind n} {i : Fin n} {label : κ}

/-- A visit to a label some item carries already makes their classes one. -/
theorem joined_merge {u' : UnionFind n} {visited : List (Fin n × κ)}
    (h : ∀ i j, u.root i = u.root j ↔ EqvGen (Together visited) i j) {other : Fin n}
    (hother : (other, label) ∈ visited) (hm : u.Merges u' i other) (a b : Fin n) :
    u'.root a = u'.root b ↔ EqvGen (Together ((i, label) :: visited)) a b := by
  have hio : EqvGen (Together ((i, label) :: visited)) i other :=
    .rel _ _ ⟨label, List.mem_cons_self, List.mem_cons_of_mem _ hother⟩
  -- what is in the class of either is connected to `other` by the new link
  have hclass : ∀ c, u.root c = u.root i ∨ u.root c = u.root other →
      EqvGen (Together ((i, label) :: visited)) c other := by
    rintro c (hc | hc)
    · exact (eqvGen_mono_visit _ ((h _ _).mp hc)).trans _ _ _ hio
    · exact eqvGen_mono_visit _ ((h _ _).mp hc)
  constructor
  · intro hab
    rcases (hm a b).mp hab with hold | ⟨ha, hb⟩
    · exact eqvGen_mono_visit _ ((h a b).mp hold)
    · exact (hclass a ha).trans _ _ _ ((hclass b hb).symm _ _)
  · intro hab
    -- one shared label at a time: an old one keeps the roots equal, the new one is the link
    have hlink : ∀ c, (c, label) ∈ (i, label) :: visited → u.root c = u.root i ∨ u.root c = u.root other := by
      intro c hc
      rcases List.mem_cons.mp hc with heq | hc
      · rw [(Prod.mk.inj heq).1]
        exact Or.inl rfl
      · exact Or.inr ((h c other).mpr (.rel _ _ ⟨label, hc, hother⟩))
    induction hab with
    | rel c d hcd =>
      obtain ⟨l, hc, hd⟩ := hcd
      by_cases hl : l = label
      · subst hl
        exact (hm c d).mpr (Or.inr ⟨hlink c hc, hlink d hd⟩)
      · have hne : ∀ e, (e, l) ∈ (i, label) :: visited → (e, l) ∈ visited := by
          intro e he
          rcases List.mem_cons.mp he with heq | he
          · exact absurd (Prod.mk.inj heq).2 hl
          · exact he
        exact (hm c d).mpr (Or.inl ((h c d).mpr (.rel _ _ ⟨l, hne c hc, hne d hd⟩)))
    | refl _ => rfl
    | symm _ _ _ ih => exact ih.symm
    | trans _ _ _ _ _ ih₁ ih₂ => exact ih₁.trans ih₂

omit [DecidableEq κ] in
theorem joined_fresh {visited : List (Fin n × κ)} (h : ∀ i j, u.root i = u.root j ↔ EqvGen (Together visited) i j)
    (hfresh : ∀ j, (j, label) ∉ visited) (a b : Fin n) :
    u.root a = u.root b ↔ EqvGen (Together ((i, label) :: visited)) a b := by
  rw [h a b]
  refine ⟨eqvGen_mono_visit _, ?_⟩
  intro hab
  induction hab with
  | rel c d hcd =>
    obtain ⟨l, hc, hd⟩ := hcd
    rcases List.mem_cons.mp hc with heqc | hc
    · rcases List.mem_cons.mp hd with heqd | hd
      · rw [(Prod.mk.inj heqc).1, (Prod.mk.inj heqd).1]
        exact .refl i
      · rw [(Prod.mk.inj heqc).2] at hd
        exact absurd hd (hfresh d)
    · rcases List.mem_cons.mp hd with heqd | hd
      · rw [(Prod.mk.inj heqd).2] at hc
        exact absurd hc (hfresh c)
      · exact .rel _ _ ⟨l, hc, hd⟩
  | refl c => exact .refl c
  | symm _ _ _ ih => exact ih.symm
  | trans _ _ _ _ _ ih₁ ih₂ => exact ih₁.trans _ _ _ ih₂

variable {s : Linking n κ}

theorem Visited.fresh {visited : List (Fin n × κ)} (h : Visited s visited) (hseen : s.seen.lookup label = none) (j : Fin n) : (j, label) ∉ visited := by
  intro hj
  obtain ⟨k, hk⟩ := h.remembered label j hj
  rw [hseen] at hk
  simp at hk

theorem Visited.remember {visited : List (Fin n × κ)} (h : Visited s visited)
    (hu : ∀ a b, u.root a = u.root b ↔ EqvGen (Together ((i, label) :: visited)) a b) :
    Visited ⟨u, (label, i) :: s.seen⟩ ((i, label) :: visited) := by
  refine ⟨hu, ?_, ?_⟩
  · intro l j hl
    have hl : ((label, i) :: s.seen).lookup l = some j := hl
    by_cases hll : l = label
    · subst hll
      rw [List.lookup_cons_self, Option.some.injEq] at hl
      rw [hl]
      exact List.mem_cons_self
    · rw [lookup_cons_ne hll] at hl
      exact List.mem_cons_of_mem _ (h.carries l j hl)
  · intro l j hl
    show ∃ k, ((label, i) :: s.seen).lookup l = some k
    by_cases hll : l = label
    · exact ⟨i, by rw [hll]; exact List.lookup_cons_self⟩
    · rcases List.mem_cons.mp hl with heq | hl
      · exact absurd (Prod.mk.inj heq).2 hll
      · obtain ⟨k, hk⟩ := h.remembered l j hl
        exact ⟨k, by rw [← hk]; exact lookup_cons_ne hll i s.seen⟩

theorem Visited.touch {visited : List (Fin n × κ)} (h : Visited s visited)
    (i : Fin n) (label : κ) : Visited (s.touch i label) ((i, label) :: visited) := by
  cases hseen : s.seen.lookup label with
  | some other =>
    have heq : s.touch i label = { s with forest := s.forest.union i other } := by rw [Linking.touch, hseen]
    rw [heq]
    refine ⟨joined_merge h.joined (h.carries _ _ hseen) (s.forest.merges_union i other), ?_, ?_⟩
    · intro l j hl
      exact List.mem_cons_of_mem _ (h.carries l j hl)
    · intro l j hl
      rcases List.mem_cons.mp hl with heq | hl
      · rw [(Prod.mk.inj heq).2]
        exact ⟨other, hseen⟩
      · exact h.remembered l j hl
  | none =>
    have heq : s.touch i label = ⟨s.forest, (label, i) :: s.seen⟩ := by rw [Linking.touch, hseen]
    rw [heq]
    exact h.remember (joined_fresh h.joined (h.fresh hseen))

theorem Visited.follow {visited : List (Fin n × κ)} (h : Visited s visited)
    (i : Fin n) (label : κ) : Visited (s.follow i label) ((i, label) :: visited) := by
  cases hseen : s.seen.lookup label with
  | some other =>
    have heq : s.follow i label = ⟨s.forest.unionLow i other, (label, i) :: s.seen⟩ := by rw [Linking.follow, hseen]
    rw [heq]
    exact h.remember (joined_merge h.joined (h.carries _ _ hseen) (s.forest.merges_unionLow i other))
  | none =>
    have heq : s.follow i label = ⟨s.forest, (label, i) :: s.seen⟩ := by rw [Linking.follow, hseen]
    rw [heq]
    exact h.remember (joined_fresh h.joined (h.fresh hseen))

section Passes

/-! A pass visits every item with every label it carries, by either kind of visit. -/

variable {visit : Linking n κ → Fin n → κ → Linking n κ}
  (hvisit : ∀ {s : Linking n κ} {visited : List (Fin n × κ)}, Visited s visited →
    ∀ i label, Visited (visit s i label) ((i, label) :: visited))
include hvisit

theorem Visited.visitAll {s : Linking n κ} {visited : List (Fin n × κ)} (h : Visited s visited)
    (i : Fin n) (labels : List κ) :
    ∃ visited', Visited (labels.foldl (fun s label => visit s i label) s) visited' ∧
      ∀ v, v ∈ visited' ↔ v ∈ visited ∨ v.1 = i ∧ v.2 ∈ labels := by
  induction labels generalizing s visited with
  | nil => exact ⟨visited, h, by simp⟩
  | cons label rest ih =>
    obtain ⟨visited', hv, hmem⟩ := ih (hvisit h i label)
    refine ⟨visited', hv, ?_⟩
    rintro ⟨j, l⟩
    rw [hmem]
    simp only [List.mem_cons, Prod.mk.injEq]
    tauto

variable (labels : Fin n → List κ)

theorem visited_pass : ∃ visited, Visited ((List.finRange n).foldl
        (fun s i => (labels i).foldl (fun s label => visit s i label) s) start) visited ∧
      ∀ v, v ∈ visited ↔ v.2 ∈ labels v.1 := by
  have hfold : ∀ (is : List (Fin n)) (s : Linking n κ) (visited : List (Fin n × κ)),
      Visited s visited → ∃ visited', Visited (is.foldl
        (fun s i => (labels i).foldl (fun s label => visit s i label) s) s) visited' ∧
        ∀ v, v ∈ visited' ↔ v ∈ visited ∨ v.1 ∈ is ∧ v.2 ∈ labels v.1 := by
    intro is
    induction is with
    | nil =>
      intro s visited h
      exact ⟨visited, h, by simp⟩
    | cons i rest ih =>
      intro s visited h
      obtain ⟨v₁, h₁, hmem₁⟩ := h.visitAll hvisit i (labels i)
      obtain ⟨v₂, h₂, hmem₂⟩ := ih _ _ h₁
      refine ⟨v₂, h₂, ?_⟩
      rintro ⟨j, l⟩
      rw [hmem₂, hmem₁]
      simp only [List.mem_cons]
      constructor
      · rintro ((hv | ⟨rfl, hl⟩) | ⟨hj, hl⟩)
        · exact Or.inl hv
        · exact Or.inr ⟨Or.inl rfl, hl⟩
        · exact Or.inr ⟨Or.inr hj, hl⟩
      · rintro (hv | ⟨rfl | hj, hl⟩)
        · exact Or.inl (Or.inl hv)
        · exact Or.inl (Or.inr ⟨rfl, hl⟩)
        · exact Or.inr ⟨hj, hl⟩
  obtain ⟨visited, hv, hmem⟩ := hfold (List.finRange n) start [] visited_start
  refine ⟨visited, hv, ?_⟩
  intro v
  rw [hmem]
  simp

/-- After a pass two items have one root exactly when a chain of shared labels connects them. -/
theorem pass_root_iff (i j : Fin n) : ((List.finRange n).foldl
        (fun s i => (labels i).foldl (fun s label => visit s i label) s) start).forest.root i =
      ((List.finRange n).foldl (fun s i => (labels i).foldl (fun s label => visit s i label) s) start).forest.root j ↔
      EqvGen (fun i j => ∃ label, label ∈ labels i ∧ label ∈ labels j) i j := by
  obtain ⟨visited, hv, hmem⟩ := visited_pass hvisit labels
  have hrel : Together visited = fun i j => ∃ label, label ∈ labels i ∧ label ∈ labels j := by
    funext a b
    simp only [Together, hmem]
  rw [hv.joined, hrel]

end Passes

variable (labels : Fin n → List κ)

theorem link_root_iff (i j : Fin n) : (link labels).forest.root i = (link labels).forest.root j ↔
      EqvGen (fun i j => ∃ label, label ∈ labels i ∧ label ∈ labels j) i j :=
  pass_root_iff (fun h => h.touch) labels i j

theorem chain_root_iff (i j : Fin n) : (chain labels).forest.root i = (chain labels).forest.root j ↔
      EqvGen (fun i j => ∃ label, label ∈ labels i ∧ label ∈ labels j) i j :=
  pass_root_iff (fun h => h.follow) labels i j

end Linking

/-! ## The groups -/

/-- The items under their roots, each root found with its path compressed. -/
def UnionFind.collect (u : UnionFind n) (items : List (Fin n)) :
    UnionFind n × Keyed (Fin n) (List (Fin n)) :=
  items.foldl (fun s i => ((s.1.find i).1, s.2.push (s.1.find i).2 i)) (u, empty)

def UnionFind.groups (u : UnionFind n) : List (List (Fin n)) :=
  (u.collect (List.finRange n)).2.rows.map Prod.snd

variable (u : UnionFind n)

theorem UnionFind.collect_eq (items : List (Fin n)) : (u.collect items).2 = group items u.root := by
  have hfold : ∀ (items : List (Fin n)) (v : UnionFind n) (t : Keyed (Fin n) (List (Fin n))), v.root = u.root →
      (items.foldl (fun s i => ((s.1.find i).1, s.2.push (s.1.find i).2 i)) (v, t)).2 =
        items.foldl (fun t i => t.push (u.root i) i) t := by
    intro items
    induction items with
    | nil => exact fun _ _ _ => rfl
    | cons i rest ih =>
      intro v t hv
      rw [List.foldl_cons, List.foldl_cons, ih, find_snd, hv]
      funext j
      rw [root_find, hv]
  exact hfold items u empty rfl

theorem UnionFind.mem_groups {u : UnionFind n} {g : List (Fin n)} :
    g ∈ u.groups ↔ ∃ i, g = (List.finRange n).filter fun j => u.root j = u.root i := by
  rw [groups, collect_eq]
  simp only [List.mem_map, Prod.exists, exists_eq_right, ← get?_eq_some_iff, get?_group, List.mem_finRange, true_and]
  constructor
  · rintro ⟨r, hg, i, rfl⟩
    exact ⟨i, hg⟩
  · rintro ⟨i, hg⟩
    exact ⟨u.root i, hg, i, rfl⟩

theorem UnionFind.groups_pairwise : u.groups.Pairwise fun g g' => ∀ i ∈ g, ∀ j ∈ g', u.root i ≠ u.root j := by
  have hrow : ∀ r ∈ (group (List.finRange n) u.root).rows, ∀ i ∈ r.2, u.root i = r.1 := by
    rintro ⟨k, g⟩ hr i hi
    obtain ⟨hg, -⟩ := (get?_group _ _ _).mp ((get?_eq_some_iff _).mpr hr)
    rw [hg, List.mem_filter] at hi
    simpa using hi.2
  rw [groups, collect_eq, List.pairwise_map]
  have hdist := (group (List.finRange n) u.root).distinct
  rw [List.Nodup, List.pairwise_map] at hdist
  refine hdist.imp_of_mem ?_
  intro r r' hr hr' hne i hi j hj
  rw [hrow r hr i hi, hrow r' hr' j hj]
  exact hne

end SyncEngine
