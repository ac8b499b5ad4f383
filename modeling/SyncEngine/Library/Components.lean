import Mathlib

/-!
# Components of items that share labels, and their names

Items carry labels, some of which they own, and each item has a key.  Within a set two are `Joined` when a chain of
shared labels inside it connects them.  A set is named by the least label one of it owns or, where none owns any, by
the least of their keys.

`Named.merge` is the step of an incremental grouping: the items under the names a connected batch touches form one
component with it.  It rests on `Named.joined_of_eq`: a name stands for one component only.
-/

namespace SyncEngine

open Relation

section Names

variable {α ι : Type} [LinearOrder ι]

def IsName (owns : α → ι → Prop) (key : α → ι) (S : Set α) (t : ι) : Prop :=
  IsLeast {i | ∃ x ∈ S, owns x i} t ∨
    (∀ x ∈ S, ∀ i, ¬ owns x i) ∧ IsLeast {i | ∃ x ∈ S, key x = i} t

variable {owns : α → ι → Prop} {key : α → ι} {S S' : Set α} {t t' : ι}

theorem IsName.unique (h : IsName owns key S t) (h' : IsName owns key S t') : t = t' := by
  rcases h with h | ⟨hnone, h⟩
  · rcases h' with h' | ⟨hnone, -⟩
    · exact h.unique h'
    · obtain ⟨x, hx, hown⟩ := h.1
      exact absurd hown (hnone x hx t)
  · rcases h' with h' | ⟨-, h'⟩
    · obtain ⟨x, hx, hown⟩ := h'.1
      exact absurd hown (hnone x hx t')
    · exact h.unique h'

theorem IsName.source (h : IsName owns key S t) : (∃ x ∈ S, owns x t) ∨ ∃ x ∈ S, key x = t := by
  rcases h with h | ⟨-, h⟩
  · exact Or.inl h.1
  · exact Or.inr h.1

theorem IsName.sUnion {F : Set (Set α)} (hne : F.Nonempty) (h : ∀ S ∈ F, IsName owns key S t) :
    IsName owns key (⋃₀ F) t := by
  by_cases howned : ∃ S ∈ F, ∃ x ∈ S, ∃ i, owns x i
  · obtain ⟨S, hS, x, hx, i, hi⟩ := howned
    left
    constructor
    · rcases h S hS with hleast | ⟨hnone, -⟩
      · obtain ⟨y, hy, hown⟩ := hleast.1
        exact ⟨y, ⟨S, hS, hy⟩, hown⟩
      · exact absurd hi (hnone x hx i)
    · rintro j ⟨y, ⟨S', hS', hy⟩, hown⟩
      rcases h S' hS' with hleast | ⟨hnone, -⟩
      · exact hleast.2 ⟨y, hy, hown⟩
      · exact absurd hown (hnone y hy j)
  · have hkeys : ∀ S ∈ F, IsLeast {i | ∃ x ∈ S, key x = i} t := by
      intro S hS
      rcases h S hS with hleast | ⟨-, hleast⟩
      · obtain ⟨x, hx, hown⟩ := hleast.1
        exact absurd ⟨S, hS, x, hx, t, hown⟩ howned
      · exact hleast
    right
    refine ⟨fun x ⟨S, hS, hx⟩ i hi => howned ⟨S, hS, x, hx, i, hi⟩, ?_, ?_⟩
    · obtain ⟨S, hS⟩ := hne
      obtain ⟨x, hx, hk⟩ := (hkeys S hS).1
      exact ⟨x, ⟨S, hS, hx⟩, hk⟩
    · rintro i ⟨x, ⟨S, hS, hx⟩, hk⟩
      exact (hkeys S hS).2 ⟨x, hx, hk⟩

theorem IsName.union_of_subset {W W' : Set α} (h : IsName owns key S t)
    (hall : IsName owns key (S ∪ W) t) (hW : ∀ x ∈ W, ∀ i, ¬ owns x i) (hsub : W' ⊆ W) :
    IsName owns key (S ∪ W') t := by
  have howner : ∀ {V : Set α}, V ⊆ W → ∀ {x i}, x ∈ S ∪ V → owns x i → x ∈ S := by
    intro V hV x i hx hown
    exact hx.resolve_right fun hx => hW x (hV hx) i hown
  rcases h with h | ⟨hnone, h⟩
  · left
    obtain ⟨x, hx, hown⟩ := h.1
    refine ⟨⟨x, Or.inl hx, hown⟩, ?_⟩
    rintro i ⟨y, hy, hyi⟩
    exact h.2 ⟨y, howner hsub hy hyi, hyi⟩
  · right
    refine ⟨fun x hx i hi => hnone x (howner hsub hx hi) i hi, ?_, ?_⟩
    · obtain ⟨x, hx, hk⟩ := h.1
      exact ⟨x, Or.inl hx, hk⟩
    · rintro i ⟨x, hx, hk⟩
      rcases hall with hall | ⟨-, hall⟩
      · obtain ⟨y, hy, hown⟩ := hall.1
        exact absurd hown (hnone y (howner subset_rfl hy hown) t)
      · exact hall.2 ⟨x, hx.imp_right (fun h => hsub h), hk⟩

theorem isName_image {β : Type} {owns' : β → ι → Prop} {key' : β → ι} {f : α → β}
    (howns : ∀ x ∈ S, ∀ i, owns' (f x) i ↔ owns x i) (hkey : ∀ x ∈ S, key' (f x) = key x) :
    IsName owns' key' (f '' S) t ↔ IsName owns key S t := by
  have ho : {i | ∃ y ∈ f '' S, owns' y i} = {i | ∃ x ∈ S, owns x i} := by
    ext i
    constructor
    · rintro ⟨_, ⟨x, hx, rfl⟩, hown⟩
      exact ⟨x, hx, (howns x hx i).mp hown⟩
    · rintro ⟨x, hx, hown⟩
      exact ⟨f x, ⟨x, hx, rfl⟩, (howns x hx i).mpr hown⟩
  have hk : {i | ∃ y ∈ f '' S, key' y = i} = {i | ∃ x ∈ S, key x = i} := by
    ext i
    constructor
    · rintro ⟨_, ⟨x, hx, rfl⟩, hi⟩
      exact ⟨x, hx, (hkey x hx).symm.trans hi⟩
    · rintro ⟨x, hx, hi⟩
      exact ⟨f x, ⟨x, hx, rfl⟩, (hkey x hx).trans hi⟩
  have hn : (∀ y ∈ f '' S, ∀ i, ¬ owns' y i) ↔ ∀ x ∈ S, ∀ i, ¬ owns x i := by
    constructor
    · intro h x hx i hown
      exact h (f x) ⟨x, hx, rfl⟩ i ((howns x hx i).mpr hown)
    · rintro h _ ⟨x, hx, rfl⟩ i hown
      exact h x hx i ((howns x hx i).mp hown)
  rw [IsName, IsName, ho, hk, hn]

theorem IsName.of_min? {owned keys : List ι} (howned : ∀ i, i ∈ owned ↔ ∃ x ∈ S, owns x i)
    (hkeys : ∀ i, i ∈ keys ↔ ∃ x ∈ S, key x = i) (h : owned.min?.or keys.min? = some t) :
    IsName owns key S t := by
  cases ho : owned.min? with
  | some a =>
    rw [ho, Option.some_or, Option.some.injEq] at h
    subst h
    obtain ⟨hmem, hle⟩ := List.min?_eq_some_iff.mp ho
    left
    exact ⟨(howned a).mp hmem, fun i hi => hle i ((howned i).mpr hi)⟩
  | none =>
    rw [ho, Option.none_or] at h
    rw [List.min?_eq_none_iff] at ho
    obtain ⟨hmem, hle⟩ := List.min?_eq_some_iff.mp h
    right
    refine ⟨?_, (hkeys t).mp hmem, fun i hi => hle i ((hkeys i).mpr hi)⟩
    intro x hx i hown
    have hin := (howned i).mpr ⟨x, hx, hown⟩
    rw [ho] at hin
    exact absurd hin List.not_mem_nil

end Names

section Components

variable {α ι : Type} (touches : α → ι → Prop)

def Shares (x y : α) : Prop := ∃ i, touches x i ∧ touches y i

/-- Connected by shared labels without leaving the set. -/
def Joined (D : Set α) : α → α → Prop :=
  ReflTransGen fun x y => x ∈ D ∧ y ∈ D ∧ Shares touches x y

/-- The items of the set connected to `x`. -/
def component (D : Set α) (x : α) : Set α := {y | y ∈ D ∧ Joined touches D x y}

variable {touches} {D D' B S : Set α} {x y z : α}

theorem Shares.symm (h : Shares touches x y) : Shares touches y x := by
  obtain ⟨i, hx, hy⟩ := h
  exact ⟨i, hy, hx⟩

theorem Joined.symm (h : Joined touches D x y) : Joined touches D y x := by
  induction h with
  | refl => exact .refl
  | tail _ hstep ih =>
    obtain ⟨hb, hc, hbc⟩ := hstep
    exact .head ⟨hc, hb, hbc.symm⟩ ih

theorem Joined.trans (h : Joined touches D x y) (h' : Joined touches D y z) :
    Joined touches D x z := ReflTransGen.trans h h'

theorem Joined.mono (h : Joined touches D x y) (hsub : D ⊆ D') : Joined touches D' x y := by
  refine ReflTransGen.mono ?_ _ _ h
  rintro a b ⟨ha, hb, hab⟩
  exact ⟨hsub ha, hsub hb, hab⟩

theorem Joined.of_shares (hx : x ∈ D) (hy : y ∈ D) (h : Shares touches x y) :
    Joined touches D x y := ReflTransGen.single ⟨hx, hy, h⟩

/-- A part that no shared label leads out of contains what is joined to its items, and does
so inside that part. -/
theorem Joined.within (h : Joined touches D x y) (hx : x ∈ S)
    (hclosed : ∀ a ∈ D, a ∈ S → ∀ b ∈ D, Shares touches a b → b ∈ S) :
    y ∈ S ∧ Joined touches (D ∩ S) x y := by
  induction h with
  | refl => exact ⟨hx, .refl⟩
  | tail _ hstep ih =>
    obtain ⟨hb, hc, hbc⟩ := hstep
    have hcS := hclosed _ hb ih.1 _ hc hbc
    exact ⟨hcS, ih.2.tail ⟨⟨hb, ih.1⟩, ⟨hc, hcS⟩, hbc⟩⟩

theorem joined_univ_iff : Joined touches Set.univ x y ↔ EqvGen (Shares touches) x y := by
  constructor
  · intro h
    induction h with
    | refl => exact .refl x
    | tail _ hstep ih => exact .trans _ _ _ ih (.rel _ _ hstep.2.2)
  · intro h
    induction h with
    | rel a b hab => exact .of_shares (Set.mem_univ a) (Set.mem_univ b) hab
    | refl a => exact .refl
    | symm _ _ _ ih => exact ih.symm
    | trans _ _ _ _ _ ih₁ ih₂ => exact ih₁.trans ih₂

theorem mem_component_self (hx : x ∈ D) : x ∈ component touches D x := ⟨hx, .refl⟩

theorem component_eq_of_joined (h : Joined touches D x y) : component touches D x = component touches D y := by
  ext z
  constructor
  · rintro ⟨hz, hxz⟩
    exact ⟨hz, h.symm.trans hxz⟩
  · rintro ⟨hz, hyz⟩
    exact ⟨hz, h.trans hyz⟩

theorem component_eq_of_closed (hsub : S ⊆ D) (hx : x ∈ S)
    (hclosed : ∀ a ∈ D, a ∈ S → ∀ b ∈ D, Shares touches a b → b ∈ S)
    (hconn : ∀ y ∈ S, Joined touches D x y) : component touches D x = S := by
  ext y
  constructor
  · rintro ⟨-, hxy⟩
    exact (hxy.within hx hclosed).1
  · intro hy
    exact ⟨hsub hy, hconn y hy⟩

theorem component_image {β : Type} {touches' : β → ι → Prop} {f : α → β}
    (htouch : ∀ x ∈ D, ∀ i, touches' (f x) i ↔ touches x i) (hx : x ∈ D) :
    component touches' (f '' D) (f x) = f '' component touches D x := by
  have hshares : ∀ a ∈ D, ∀ b ∈ D, Shares touches' (f a) (f b) ↔ Shares touches a b := by
    intro a ha b hb
    simp only [Shares, htouch a ha, htouch b hb]
  ext z
  constructor
  · rintro ⟨-, hz⟩
    have hback : ∃ y ∈ D, f y = z ∧ Joined touches D x y := by
      induction hz with
      | refl => exact ⟨x, hx, rfl, .refl⟩
      | tail _ hstep ih =>
        obtain ⟨y, hy, rfl, hxy⟩ := ih
        obtain ⟨-, ⟨w, hw, rfl⟩, hyw⟩ := hstep
        exact ⟨w, hw, rfl, hxy.trans (.of_shares hy hw ((hshares y hy w hw).mp hyw))⟩
    obtain ⟨y, hy, hyz, hxy⟩ := hback
    exact ⟨y, ⟨hy, hxy⟩, hyz⟩
  · rintro ⟨y, ⟨hy, hxy⟩, rfl⟩
    refine ⟨⟨y, hy, rfl⟩, ?_⟩
    refine ReflTransGen.lift f ?_ _ _ hxy
    rintro a b ⟨ha, hb, hab⟩
    exact ⟨⟨a, ha, rfl⟩, ⟨b, hb, rfl⟩, (hshares a ha b hb).mpr hab⟩

end Components

section Named

variable {α ι : Type} [LinearOrder ι]
variable (touches owns : α → ι → Prop) (key : α → ι)

def Named (D : Set α) (thread : α → Option ι) : Prop :=
  ∀ x ∈ D, ∃ t, thread x = some t ∧ IsName owns key (component touches D x) t

/-- Keys tell the items apart, no item owns another's key, and an owned label is one the
item carries. -/
structure Distinguished (U : Set α) : Prop where
  carries : ∀ x ∈ U, ∀ i, owns x i → touches x i
  injective : ∀ x ∈ U, ∀ y ∈ U, key x = key y → x = y
  disjoint : ∀ x ∈ U, ∀ y ∈ U, ¬ owns x (key y)

variable {touches owns key} {U D B : Set α} {thread thread' : α → Option ι} {x y : α} {t : ι}

theorem Named.joined_of_eq (h : Named touches owns key D thread)
    (hU : Distinguished touches owns key U) (hD : D ⊆ U) (hx : x ∈ D) (hy : y ∈ D)
    (heq : thread x = thread y) : Joined touches D x y := by
  obtain ⟨t, ht, hname⟩ := h x hx
  obtain ⟨t', ht', hname'⟩ := h y hy
  have htt : t = t' := by
    rw [ht, ht'] at heq
    exact Option.some.inj heq
  subst htt
  rcases hname.source with ⟨a, ha, hown⟩ | ⟨a, ha, hkey⟩
  · rcases hname'.source with ⟨b, hb, hown'⟩ | ⟨b, hb, hkey'⟩
    · have hab : Shares touches a b := ⟨t, hU.carries a (hD ha.1) t hown, hU.carries b (hD hb.1) t hown'⟩
      exact (ha.2.trans (Joined.of_shares ha.1 hb.1 hab)).trans hb.2.symm
    · rw [← hkey'] at hown
      exact absurd hown (hU.disjoint a (hD ha.1) b (hD hb.1))
  · rcases hname'.source with ⟨b, hb, hown'⟩ | ⟨b, hb, hkey'⟩
    · rw [← hkey] at hown'
      exact absurd hown' (hU.disjoint b (hD hb.1) a (hD ha.1))
    · have hab := hU.injective a (hD ha.1) b (hD hb.1) (hkey.trans hkey'.symm)
      subst hab
      exact ha.2.trans hb.2.symm

theorem Named.eq_of_joined (h : Named touches owns key D thread) (hx : x ∈ D) (hy : y ∈ D)
    (hxy : Joined touches D x y) : thread x = thread y := by
  obtain ⟨t, ht, hname⟩ := h x hx
  obtain ⟨t', ht', hname'⟩ := h y hy
  rw [component_eq_of_joined hxy] at hname
  rw [ht, ht', hname.unique hname']

/-- The items of `D` under a name that an item sharing a label with the batch is under. -/
def reachedBy (touches : α → ι → Prop) (thread : α → Option ι) (D B : Set α) : Set α :=
  {x | x ∈ D ∧ ∃ m ∈ D, (∃ b ∈ B, Shares touches m b) ∧ thread m = thread x}

/-- A connected batch and the items it reaches become one component, under the name of the
whole.  The other components stay. -/
theorem Named.merge (h : Named touches owns key D thread) (hU : Distinguished touches owns key U) (hD : D ⊆ U) {b : α}
    (hconn : ∀ x ∈ B, Joined touches B b x)
    (hname : IsName owns key (B ∪ reachedBy touches thread D B) t)
    (hmerged : ∀ x ∈ B ∪ reachedBy touches thread D B, thread' x = some t)
    (hkept : ∀ x ∈ D, x ∉ B ∪ reachedBy touches thread D B → thread' x = thread x) :
    Named touches owns key (D ∪ B) thread' := by
  have hclosed : ∀ x ∈ D ∪ B, x ∈ B ∪ reachedBy touches thread D B → ∀ y ∈ D ∪ B,
      Shares touches x y → y ∈ B ∪ reachedBy touches thread D B := by
    intro x _ hx y hy hxy
    rcases hy with hy | hy
    · right
      rcases hx with hx | ⟨hxD, m, hm, hmb, hmx⟩
      · exact ⟨hy, y, hy, ⟨x, hx, hxy.symm⟩, rfl⟩
      · exact ⟨hy, m, hm, hmb, hmx.trans (h.eq_of_joined hxD hy (.of_shares hxD hy hxy))⟩
    · exact Or.inl hy
  have hreach : ∀ x ∈ B ∪ reachedBy touches thread D B, Joined touches (D ∪ B) b x := by
    intro x hx
    rcases hx with hx | ⟨hxD, m, hm, ⟨c, hc, hmc⟩, hmx⟩
    · exact (hconn x hx).mono Set.subset_union_right
    · have hbc := (hconn c hc).mono (Set.subset_union_right (s := D))
      have hcm : Joined touches (D ∪ B) c m := .of_shares (Or.inr hc) (Or.inl hm) hmc.symm
      have hmx' := (h.joined_of_eq hU hD hm hxD hmx).mono (Set.subset_union_left (t := B))
      exact (hbc.trans hcm).trans hmx'
  intro x hx
  by_cases hxM : x ∈ B ∪ reachedBy touches thread D B
  · refine ⟨t, hmerged x hxM, ?_⟩
    have hsub : B ∪ reachedBy touches thread D B ⊆ D ∪ B := by
      rintro y (hy | hy)
      · exact Or.inr hy
      · exact Or.inl hy.1
    rw [component_eq_of_closed hsub hxM hclosed fun y hy => (hreach x hxM).symm.trans (hreach y hy)]
    exact hname
  · have hxD : x ∈ D := by
      rcases hx with hx | hx
      · exact hx
      · exact absurd (Or.inl hx) hxM
    -- no shared label leads from outside the merged part into it
    have hout : ∀ a ∈ D ∪ B, a ∈ (B ∪ reachedBy touches thread D B)ᶜ → ∀ c ∈ D ∪ B,
        Shares touches a c → c ∈ (B ∪ reachedBy touches thread D B)ᶜ := by
      intro a ha haM c hc hac hcM
      exact haM (hclosed c hc hcM a ha hac.symm)
    have hleft : (D ∪ B) ∩ (B ∪ reachedBy touches thread D B)ᶜ ⊆ D := by
      rintro a ⟨ha | ha, haM⟩
      · exact ha
      · exact absurd (Or.inl ha) haM
    obtain ⟨t', ht', hname'⟩ := h x hxD
    refine ⟨t', (hkept x hxD hxM).trans ht', ?_⟩
    have hcomp : component touches (D ∪ B) x = component touches D x := by
      ext y
      constructor
      · rintro ⟨hy, hxy⟩
        obtain ⟨hyM, hin⟩ := hxy.within hxM hout
        exact ⟨hleft ⟨hy, hyM⟩, hin.mono hleft⟩
      · rintro ⟨hy, hxy⟩
        exact ⟨Or.inl hy, hxy.mono Set.subset_union_left⟩
    rw [hcomp]
    exact hname'

end Named
end SyncEngine
