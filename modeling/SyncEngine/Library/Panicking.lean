import Mathlib
import SyncEngine.Library.Utf8

/-!
# Computations that can panic

A computation comes to a value, to an error, or to neither where it panics.  A text is cut by byte offsets, and a cut
past its end or inside a character is a panic.
-/

namespace SyncEngine

open Utf8

abbrev Panicking (ε α : Type) : Type := ExceptT ε Option α

namespace Panicking

variable {ε ε' α β γ : Type}

def orPanic (a : Option α) : Panicking ε α := ExceptT.mk (a.map .ok)

def ofResult (r : Except ε α) : Panicking ε α := ExceptT.mk (some r)

def orThrow (e : ε) (a : Option α) : Panicking ε α :=
  match a with
  | some a => pure a
  | none => throw e

def mapError (f : ε → ε') (p : Panicking ε α) : Panicking ε' α := ExceptT.mk (p.run.map (Except.mapError f))

/-- Its value, or nothing where it comes to an error. -/
def toOption (p : Panicking ε α) : Panicking ε' (Option α) := ExceptT.mk (p.run.map fun r => .ok r.toOption)

/-- The text between two byte offsets. -/
def slice (s : List Char) (i j : Nat) : Panicking ε (List Char) := orPanic (slice? s i j)

/-- The text before a byte offset. -/
def sliceTo (s : List Char) (i : Nat) : Panicking ε (List Char) := slice s 0 i

def sliceFrom (s : List Char) (i : Nat) : Panicking ε (List Char) := slice s i (size s)

def index (s : List Char) (i : Nat) : Panicking ε UInt8 := orPanic (byteAt s i)

def Gives (p : Panicking ε α) (a : α) : Prop := p.run = some (.ok a)

def Panics (p : Panicking ε α) : Prop := p.run = none

/-! ## One after the other -/

theorem run_bind (p : Panicking ε α) (f : α → Panicking ε β) : (p >>= f).run = p.run.bind fun r =>
    match r with
    | .ok a => (f a).run
    | .error e => some (.error e) := by
  rw [ExceptT.run_bind]
  cases h : p.run with
  | none => rfl
  | some r => cases r <;> rfl

variable {p : Panicking ε α} {f : α → Panicking ε β} {b : β}

theorem gives_bind : Gives (p >>= f) b ↔ ∃ a, Gives p a ∧ Gives (f a) b := by
  unfold Gives
  rw [run_bind]
  cases h : p.run with
  | none => simp
  | some r => cases r <;> simp

theorem panics_bind : Panics (p >>= f) ↔ Panics p ∨ ∃ a, Gives p a ∧ Panics (f a) := by
  unfold Panics Gives
  rw [run_bind]
  cases h : p.run with
  | none => simp
  | some r => cases r <;> simp

theorem not_panics_bind (hp : ¬ Panics p) (hf : ∀ a, Gives p a → ¬ Panics (f a)) : ¬ Panics (p >>= f) := by
  intro h
  rcases panics_bind.mp h with h | ⟨a, ha, h⟩
  · exact hp h
  · exact hf a ha h

theorem panics_bind_of_not (hp : ¬ Panics p) : Panics (p >>= f) ↔ ∃ a, Gives p a ∧ Panics (f a) := by
  rw [panics_bind]
  exact or_iff_right hp

theorem panics_map {f : α → β} : Panics (f <$> p) ↔ Panics p := by
  rw [map_eq_pure_bind, panics_bind]
  constructor
  · intro h
    rcases h with h | ⟨a, -, h⟩
    · exact h
    · cases h
  · exact Or.inl

variable {a : α}

@[simp] theorem gives_pure {b : α} : Gives (pure a : Panicking ε α) b ↔ a = b :=
  ⟨fun h => Except.ok.inj (Option.some.inj h), fun h => by rw [h]; rfl⟩

@[simp] theorem not_panics_pure : ¬ Panics (pure a : Panicking ε α) := fun h => nomatch h

variable {e : ε}

@[simp] theorem not_gives_throw : ¬ Gives (throw e : Panicking ε α) a := fun h => nomatch h

@[simp] theorem not_panics_throw : ¬ Panics (throw e : Panicking ε α) := fun h => nomatch h

variable {o : Option α}

@[simp] theorem gives_orPanic : Gives (orPanic o : Panicking ε α) a ↔ o = some a := by
  cases o <;> simp [Gives, orPanic]

@[simp] theorem panics_orPanic : Panics (orPanic o : Panicking ε α) ↔ o = none := by
  cases o <;> simp [Panics, orPanic]

variable {r : Except ε α}

@[simp] theorem gives_ofResult : Gives (ofResult r) a ↔ r = .ok a := by simp [Gives, ofResult]

@[simp] theorem not_panics_ofResult : ¬ Panics (ofResult r) := fun h => nomatch h

@[simp] theorem gives_orThrow : Gives (orThrow e o) a ↔ o = some a := by
  cases o <;> simp [orThrow]

@[simp] theorem not_panics_orThrow : ¬ Panics (orThrow e o) := by
  cases o <;> simp [orThrow]

@[simp] theorem gives_mapError {f : ε → ε'} : Gives (mapError f p) a ↔ Gives p a := by
  unfold Gives mapError
  cases h : p.run with
  | none => simp [ExceptT.run, ExceptT.mk]
  | some r => cases r <;> simp [ExceptT.run, ExceptT.mk, Except.mapError]

@[simp] theorem panics_mapError {f : ε → ε'} : Panics (mapError f p) ↔ Panics p := by
  unfold Panics mapError
  cases h : p.run <;> simp [ExceptT.run, ExceptT.mk]

@[simp] theorem panics_toOption : Panics (toOption p : Panicking ε' (Option α)) ↔ Panics p := by
  unfold Panics toOption
  cases h : p.run <;> simp [ExceptT.run, ExceptT.mk]

theorem gives_of_toOption (h : p.run.bind Except.toOption = some a) : Gives p a := by
  obtain ⟨r, hr, ha⟩ := Option.bind_eq_some_iff.mp h
  cases r with
  | error e => cases ha
  | ok b =>
    cases ha
    exact hr

theorem gives_toOption (h : ¬ Panics p) : ∃ a, Gives (toOption p : Panicking ε' (Option α)) a := by
  unfold Gives toOption
  cases hrun : p.run with
  | none => exact absurd hrun h
  | some r => exact ⟨r.toOption, rfl⟩

variable {s : List Char} {j : Nat}

@[simp] theorem gives_slice {t : List Char} {i : Nat} :
    Gives (slice s i j : Panicking ε (List Char)) t ↔ slice? s i j = some t := gives_orPanic

@[simp] theorem panics_slice {i : Nat} :
    Panics (slice s i j : Panicking ε (List Char)) ↔ slice? s i j = none := panics_orPanic

@[simp] theorem panics_index {i : Nat} : Panics (index s i : Panicking ε UInt8) ↔ size s ≤ i := by
  rw [index, panics_orPanic, byteAt, List.getElem?_eq_none_iff, length_bytes]

/-! ## Cuts where a character begins -/

variable {before after : List Char}

theorem sliceTo_append {i : Nat} (h : size before = i) :
    (sliceTo (before ++ after) i : Panicking ε (List Char)) = pure before := by
  have hslice := @slice?_append 0 [] before after i rfl (by omega)
  rw [List.nil_append] at hslice
  unfold sliceTo slice
  rw [hslice]
  rfl

theorem sliceFrom_append {i : Nat} (h : size before = i) :
    (sliceFrom (before ++ after) i : Panicking ε (List Char)) = pure after := by
  have hend : i + size after = size (before ++ after) := by
    rw [size_append]
    omega
  unfold sliceFrom slice
  rw [slice?_append_right h hend]
  rfl

theorem slice_of_ascii {i : Nat} (h : ∀ c ∈ s, c.toNat < 128) (hij : i ≤ j) (hj : j ≤ size s) :
    (slice s i j : Panicking ε (List Char)) = pure ((s.take j).drop i) := by
  have hlength := size_eq_length h
  have hbefore : size (s.take i) = i := by
    rw [size_eq_length fun c hc => h c (List.mem_of_mem_take hc), List.length_take]
    omega
  have hmiddle : i + size ((s.take j).drop i) = j := by
    rw [size_eq_length fun c hc => h c (List.mem_of_mem_take (List.mem_of_mem_drop hc)), List.length_drop,
      List.length_take]
    omega
  have hsplit : s.take i ++ ((s.take j).drop i ++ s.drop j) = s := by
    have htake : s.take i = (s.take j).take i := by rw [List.take_take, Nat.min_eq_left hij]
    rw [← List.append_assoc, htake, List.take_append_drop, List.take_append_drop]
  have hcut := @slice?_append i (s.take i) ((s.take j).drop i) (s.drop j) j hbefore hmiddle
  rw [hsplit] at hcut
  unfold slice
  rw [hcut]
  rfl

/-! ## Where characters are found -/

section Found

open Utf8 (size)

variable {p : Char → Bool} {s pattern : List Char} {i : Nat}

/-- Where the first character of a kind begins. -/
def find? (p : Char → Bool) (s : List Char) : Option Nat :=
  if s.any p then some (size (s.takeWhile fun c => !p c)) else none

/-- The places where a pattern occurs, each after the end of the one before it. -/
def matchesFrom (pattern : List Char) (at_ : Nat) : Nat → List Char → List Nat
  | _, [] => []
  | 0, c :: s =>
    if pattern <+: c :: s then at_ :: matchesFrom pattern (at_ + c.utf8Size) (pattern.length - 1) s
    else matchesFrom pattern (at_ + c.utf8Size) 0 s
  | skip + 1, c :: s => matchesFrom pattern (at_ + c.utf8Size) skip s

def matchIndices (pattern s : List Char) : List Nat := matchesFrom pattern 0 0 s

theorem sliceTo_find : (sliceTo s ((find? p s).getD (size s)) : Panicking ε (List Char)) = pure (s.takeWhile fun c => !p c) := by
  have hsplit : (s.takeWhile fun c => !p c) ++ s.dropWhile (fun c => !p c) = s := List.takeWhile_append_dropWhile
  by_cases h : s.any p
  · have hfind : find? p s = some (size (s.takeWhile fun c => !p c)) := if_pos h
    have hcut := @sliceTo_append ε (s.takeWhile fun c => !p c) (s.dropWhile fun c => !p c) _ rfl
    rw [hsplit] at hcut
    rw [hfind]
    exact hcut
  · have hnone : find? p s = none := if_neg h
    have hall : (s.takeWhile fun c => !p c) = s := by
      apply List.takeWhile_eq_self_iff.mpr
      intro c hc
      have hp : p c = false := by simpa using fun hpc => h (List.any_eq_true.mpr ⟨c, hc, hpc⟩)
      rw [hp]
      rfl
    have hcut := @sliceTo_append ε s [] _ rfl
    rw [List.append_nil] at hcut
    rw [hnone, hall]
    exact hcut

theorem find?_eq_some (h : find? p s = some i) :
    size (s.takeWhile fun c => !p c) = i ∧ ∃ c rest, s.dropWhile (fun c => !p c) = c :: rest ∧ p c = true := by
  unfold find? at h
  split at h
  · rename_i hany
    refine ⟨Option.some.inj h, ?_⟩
    obtain ⟨c, hc, hp⟩ := List.any_eq_true.mp hany
    cases hrest : s.dropWhile fun c => !p c with
    | nil =>
      have hnot := List.dropWhile_eq_nil_iff.mp hrest c hc
      rw [hp] at hnot
      exact absurd hnot (by decide)
    | cons d rest =>
      have hd := List.head_dropWhile_not (fun c => !p c) (by rw [hrest]; exact List.cons_ne_nil d rest)
      simp only [hrest, List.head_cons, Bool.not_eq_false'] at hd
      exact ⟨d, rest, rfl, hd⟩
  · cases h

theorem find?_eq_none (h : find? p s = none) {c : Char} (hc : c ∈ s) : p c = false := by
  by_contra hp
  have hany : s.any p = true := List.any_eq_true.mpr ⟨c, hc, by simpa using hp⟩
  unfold find? at h
  rw [if_pos hany] at h
  exact nomatch h

theorem sliceTo_of_find (h : find? p s = some i) :
    (sliceTo s i : Panicking ε (List Char)) = pure (s.takeWhile fun c => !p c) := by
  have hcut := @sliceTo_find ε p s
  rw [h] at hcut
  exact hcut

theorem sliceFrom_of_find (h : find? p s = some i) :
    (sliceFrom s i : Panicking ε (List Char)) = pure (s.dropWhile fun c => !p c) := by
  have hcut := @sliceFrom_append ε (s.takeWhile fun c => !p c) (s.dropWhile fun c => !p c) i (find?_eq_some h).1
  rw [List.takeWhile_append_dropWhile] at hcut
  exact hcut

theorem mem_matchesFrom {at_ skip : Nat} (h : i ∈ matchesFrom pattern at_ skip s) :
    ∃ before after, s = before ++ after ∧ at_ + size before = i := by
  induction s generalizing at_ skip with
  | nil => exact absurd h List.not_mem_nil
  | cons c s ih =>
    have hlater : ∀ {skip}, i ∈ matchesFrom pattern (at_ + c.utf8Size) skip s →
        ∃ before after, c :: s = before ++ after ∧ at_ + size before = i := by
      intro skip h
      obtain ⟨before, after, hs, hi⟩ := ih h
      refine ⟨c :: before, after, by rw [hs]; rfl, ?_⟩
      rw [size_cons]
      omega
    cases skip with
    | zero =>
      unfold matchesFrom at h
      split at h
      · cases List.mem_cons.mp h with
        | inl heq => exact ⟨[], c :: s, rfl, by rw [heq]; rfl⟩
        | inr hmem => exact hlater hmem
      · exact hlater h
    | succ skip => exact hlater h

end Found

/-! ## Lists -/

variable {l : List α}

theorem not_panics_mapM (h : ∀ a ∈ l, ¬ Panics (f a)) : ¬ Panics (l.mapM f) := by
  induction l with
  | nil => exact not_panics_pure
  | cons a l ih =>
    rw [List.mapM_cons]
    apply not_panics_bind (h a List.mem_cons_self)
    intro b _
    apply not_panics_bind (ih fun c hc => h c (List.mem_cons_of_mem a hc))
    intro bs _
    exact not_panics_pure

theorem not_panics_foldlM {f : β → α → Panicking ε β} (h : ∀ b, ∀ a ∈ l, ¬ Panics (f b a)) (b : β) :
    ¬ Panics (l.foldlM f b) := by
  induction l generalizing b with
  | nil => exact not_panics_pure
  | cons a l ih =>
    rw [List.foldlM_cons]
    apply not_panics_bind (h b a List.mem_cons_self)
    intro c _
    exact ih (fun c x hx => h c x (List.mem_cons_of_mem a hx)) c

/-- Whether a step panics and whether it fails does not depend on what came before it. -/
structure Uniform (f : β → α → Panicking ε β) (bad wrong : α → Prop) : Prop where
  panics : ∀ b a, Panics (f b a) ↔ bad a
  gives : ∀ b a, (∃ c, Gives (f b a) c) ↔ ¬ bad a ∧ ¬ wrong a

theorem Uniform.panics_foldlM {f : β → α → Panicking ε β} {bad wrong : α → Prop} (h : Uniform f bad wrong) :
    Panics (l.foldlM f b) ↔ ∃ before a after, l = before ++ a :: after ∧ bad a ∧ ∀ x ∈ before, ¬ bad x ∧ ¬ wrong x := by
  induction l generalizing b with
  | nil =>
    constructor
    · intro hpanics
      exact absurd hpanics not_panics_pure
    · intro ⟨before, a, after, hl, _⟩
      exact absurd hl.symm (List.append_ne_nil_of_right_ne_nil before (List.cons_ne_nil a after))
  | cons x l ih =>
    rw [List.foldlM_cons, panics_bind, h.panics]
    constructor
    · intro hpanics
      rcases hpanics with hbad | ⟨c, hgives, hpanics⟩
      · exact ⟨[], x, l, rfl, hbad, fun y hy => absurd hy List.not_mem_nil⟩
      · obtain ⟨before, a, after, hl, hbad, hbefore⟩ := ih.mp hpanics
        refine ⟨x :: before, a, after, by rw [hl]; rfl, hbad, ?_⟩
        intro y hy
        cases List.mem_cons.mp hy with
        | inl heq => exact heq ▸ (h.gives b x).mp ⟨c, hgives⟩
        | inr hmem => exact hbefore y hmem
    · intro ⟨before, a, after, hl, hbad, hbefore⟩
      cases before with
      | nil =>
        rw [List.nil_append, List.cons.injEq] at hl
        exact .inl (hl.1 ▸ hbad)
      | cons y before =>
        rw [List.cons_append, List.cons.injEq] at hl
        obtain ⟨c, hgives⟩ := (h.gives b x).mpr (hl.1 ▸ hbefore y List.mem_cons_self)
        exact .inr ⟨c, hgives, ih.mpr ⟨before, a, after, hl.2, hbad, fun z hz => hbefore z (List.mem_cons_of_mem y hz)⟩⟩

end Panicking
end SyncEngine
