import Mathlib

/-!
# Computations that may fail

When a chain of fallible steps, or one for each member of a list, comes to a value.
-/

namespace SyncEngine
namespace Fallible

variable {α β ε : Type}

variable {f : α → Except ε β} {b : β}

theorem bind_eq_ok {x : Except ε α} : (x >>= f) = .ok b ↔ ∃ a, x = .ok a ∧ f a = .ok b := by
  cases x with
  | error e => simp [bind, Except.bind]
  | ok a => simp [bind, Except.bind]

variable {l : List α}

theorem mapM_ok_iff : (∃ bs, l.mapM f = .ok bs) ↔ ∀ a ∈ l, ∃ b, f a = .ok b := by
  induction l with
  | nil => simp [pure, Except.pure]
  | cons a l ih =>
    rw [List.mapM_cons]
    cases ha : f a with
    | error e => simp [ha, bind, Except.bind]
    | ok b =>
      cases hl : l.mapM f with
      | error e =>
        have hnone : ¬∃ bs, l.mapM f = .ok bs := by simp [hl]
        rw [ih] at hnone
        simpa [ha, hl, bind, Except.bind] using hnone
      | ok bs =>
        have hall := ih.mp ⟨bs, hl⟩
        simpa [ha, hl, bind, Except.bind, pure, Except.pure] using hall

variable {bs : List β}

theorem mem_mapM (h : l.mapM f = .ok bs) : b ∈ bs ↔ ∃ a ∈ l, f a = .ok b := by
  induction l generalizing bs with
  | nil =>
    obtain rfl := Except.ok.inj h
    simp
  | cons a l ih =>
    rw [List.mapM_cons] at h
    obtain ⟨b₁, hb₁, h⟩ := bind_eq_ok.mp h
    obtain ⟨bs₁, hbs₁, h⟩ := bind_eq_ok.mp h
    obtain rfl := Except.ok.inj h
    rw [List.mem_cons, ih hbs₁]
    constructor
    · rintro (rfl | ⟨a', ha', hb⟩)
      · exact ⟨a, List.mem_cons_self, hb₁⟩
      · exact ⟨a', List.mem_cons_of_mem a ha', hb⟩
    · rintro ⟨a', ha', hb⟩
      rcases List.mem_cons.mp ha' with rfl | ha'
      · rw [hb] at hb₁
        exact .inl (Except.ok.inj hb₁)
      · exact .inr ⟨a', ha', hb⟩

theorem mem_flatten_mapM {f : α → Except ε (List β)} {bss : List (List β)} {P : α → Prop}
    (h : l.mapM f = .ok bss) (hf : ∀ a bs, f a = .ok bs → (b ∈ bs ↔ P a)) :
    b ∈ bss.flatten ↔ ∃ a ∈ l, P a := by
  rw [List.mem_flatten]
  constructor
  · rintro ⟨bs, hbs, hb⟩
    obtain ⟨a, ha, hok⟩ := (mem_mapM h).mp hbs
    exact ⟨a, ha, (hf a bs hok).mp hb⟩
  · rintro ⟨a, ha, hP⟩
    obtain ⟨bs, hok⟩ := mapM_ok_iff.mp ⟨bss, h⟩ a ha
    exact ⟨bs, (mem_mapM h).mpr ⟨a, ha, hok⟩, (hf a bs hok).mpr hP⟩

/-- What a fallible function comes to, or nothing. -/
def value (x : Except ε (Option α)) : Option α :=
  match x with
  | .ok a => a
  | .error _ => none

theorem reduceOption_mapM {f : α → Except ε (Option β)} {bs : List (Option β)}
    (h : l.mapM f = .ok bs) : bs.reduceOption = l.filterMap fun a => value (f a) := by
  induction l generalizing bs with
  | nil =>
    obtain rfl := Except.ok.inj h
    rfl
  | cons a l ih =>
    rw [List.mapM_cons] at h
    obtain ⟨b, hb, h⟩ := bind_eq_ok.mp h
    obtain ⟨bs', hbs', h⟩ := bind_eq_ok.mp h
    obtain rfl := Except.ok.inj h
    have hrest := ih hbs'
    cases b with
    | none =>
      rw [List.reduceOption_cons_of_none, List.filterMap_cons_none (by rw [hb]; rfl), hrest]
    | some b =>
      rw [List.reduceOption_cons_of_some, List.filterMap_cons_some (by rw [hb]; rfl), hrest]

theorem mapM_map_ok {γ : Type} {g : β → γ} {cs : List γ}
    (h : l.mapM (fun a => do let b ← f a; return g b) = .ok cs) : ∃ bs, l.mapM f = .ok bs ∧ cs = bs.map g := by
  induction l generalizing cs with
  | nil =>
    obtain rfl := Except.ok.inj h
    exact ⟨[], rfl, rfl⟩
  | cons a l ih =>
    rw [List.mapM_cons] at h
    obtain ⟨c, hc, h⟩ := bind_eq_ok.mp h
    obtain ⟨cs', hcs', h⟩ := bind_eq_ok.mp h
    obtain rfl := Except.ok.inj h
    obtain ⟨b, hb, hc⟩ := bind_eq_ok.mp hc
    obtain rfl := Except.ok.inj hc
    obtain ⟨bs, hbs, rfl⟩ := ih hcs'
    refine ⟨b :: bs, ?_, rfl⟩
    rw [List.mapM_cons, hb, hbs]
    rfl

theorem mapM_ok_forall₂ (h : l.mapM f = .ok bs) : List.Forall₂ (fun a b => f a = .ok b) l bs := by
  induction l generalizing bs with
  | nil =>
    obtain rfl := Except.ok.inj h
    exact .nil
  | cons a l ih =>
    rw [List.mapM_cons] at h
    obtain ⟨b, hb, h⟩ := bind_eq_ok.mp h
    obtain ⟨bs', hbs, h⟩ := bind_eq_ok.mp h
    obtain rfl := Except.ok.inj h
    exact .cons hb (ih hbs)

theorem mapM_some_iff {f : α → Option β} {l' : List β} :
    l.mapM f = some l' ↔ List.Forall₂ (fun a b => f a = some b) l l' := by
  induction l generalizing l' with
  | nil =>
    constructor
    · intro h
      obtain rfl := Option.some.inj h
      exact .nil
    · intro h
      cases h
      rfl
  | cons a l ih =>
    rw [List.mapM_cons]
    constructor
    · intro h
      obtain ⟨b, hb, h⟩ := Option.bind_eq_some_iff.mp h
      obtain ⟨bs, hbs, h⟩ := Option.bind_eq_some_iff.mp h
      obtain rfl := Option.some.inj h
      exact .cons hb (ih.mp hbs)
    · intro h
      cases h with
      | cons hb hbs =>
        rw [hb, ih.mpr hbs]
        rfl

end Fallible
end SyncEngine
