import Mathlib

/-!
# Programs that ask

A dialogue is a program that makes requests and goes on with their answers.  What answers it, the peer, may do so from
everything exchanged before, so a statement over all peers is one over everything that could be on the other side.

`Runs d t a` is one whole run: the exchanges `t` and the value `a` the program ends with.  `run` is the run a given
peer makes it take; a dialogue is a finite tree, so every peer makes it end.
-/

namespace SyncEngine

/-- A request together with the answer it got. -/
structure Exchange (Q : Type) (A : Q → Type) where
  request : Q
  answer : A request

inductive Dialogue (Q : Type) (A : Q → Type) (α : Type) where
  | done (value : α)
  | ask (request : Q) (next : A request → Dialogue Q A α)

abbrev Peer (Q : Type) (A : Q → Type) : Type := List (Exchange Q A) → (q : Q) → A q

namespace Dialogue

variable {Q : Type} {A : Q → Type} {α β ε : Type}

protected def bind : Dialogue Q A α → (α → Dialogue Q A β) → Dialogue Q A β
  | .done a, f => f a
  | .ask q next, f => .ask q fun a => (next a).bind f

instance : Monad (Dialogue Q A) where
  pure := .done
  bind := Dialogue.bind

def request (q : Q) : Dialogue Q A (A q) := .ask q .done

variable (d : Dialogue Q A α)

theorem bind_done : d.bind .done = d := by
  induction d with
  | done a => rfl
  | ask q next ih => exact congrArg (Dialogue.ask q) (funext ih)

theorem bind_assoc {γ : Type} (f : α → Dialogue Q A β)
    (g : β → Dialogue Q A γ) : (d.bind f).bind g = d.bind fun a => (f a).bind g := by
  induction d with
  | done a => rfl
  | ask q next ih => exact congrArg (Dialogue.ask q) (funext ih)

instance : LawfulMonad (Dialogue Q A) :=
  LawfulMonad.mk' (Dialogue Q A) (fun d => bind_done d) (fun _ _ => rfl)
    (fun d f g => bind_assoc d f g)

/-- One whole run: what was exchanged, and the value the program ended with. -/
inductive Runs : Dialogue Q A α → List (Exchange Q A) → α → Prop
  | done (a : α) : Runs (.done a) [] a
  | ask {q : Q} {next : A q → Dialogue Q A α} {t : List (Exchange Q A)} {b : α} (a : A q) :
      Runs (next a) t b → Runs (.ask q next) (⟨q, a⟩ :: t) b

variable {a : α} {t : List (Exchange Q A)}

@[simp]
theorem runs_pure {b : α} : Runs (pure a : Dialogue Q A α) t b ↔ t = [] ∧ b = a := by
  constructor
  · intro h
    cases h
    exact ⟨rfl, rfl⟩
  · rintro ⟨rfl, rfl⟩
    exact .done _

@[simp]
theorem runs_request {q : Q} {a : A q} : Runs (request q) t a ↔ t = [⟨q, a⟩] := by
  constructor
  · intro h
    cases h with
    | ask a h =>
      cases h
      rfl
  · rintro rfl
    exact .ask a (.done a)

theorem runs_bind {d : Dialogue Q A α} {f : α → Dialogue Q A β} {b : β} :
    Runs (d >>= f) t b ↔ ∃ t₁ a t₂, t = t₁ ++ t₂ ∧ Runs d t₁ a ∧ Runs (f a) t₂ b := by
  show Runs (d.bind f) t b ↔ _
  induction d generalizing t with
  | done a =>
    constructor
    · intro h
      exact ⟨[], a, t, rfl, .done a, h⟩
    · rintro ⟨t₁, a', t₂, rfl, h₁, h₂⟩
      cases h₁
      exact h₂
  | ask q next ih =>
    constructor
    · intro h
      cases h with
      | ask a h =>
        obtain ⟨t₁, a', t₂, rfl, h₁, h₂⟩ := (ih a).mp h
        exact ⟨⟨q, a⟩ :: t₁, a', t₂, rfl, .ask a h₁, h₂⟩
    · rintro ⟨t₁, a', t₂, rfl, h₁, h₂⟩
      cases h₁ with
      | ask a h₁ => exact .ask a ((ih a).mpr ⟨_, a', t₂, rfl, h₁, h₂⟩)

section Fallible

variable {x : ExceptT ε (Dialogue Q A) α} {f : α → ExceptT ε (Dialogue Q A) β}
  {t : List (Exchange Q A)}

theorem runs_bind_except {r : Except ε β} : Runs (x >>= f).run t r ↔ (∃ e, Runs x.run t (.error e) ∧ r = .error e) ∨
        ∃ t₁ a t₂, t = t₁ ++ t₂ ∧ Runs x.run t₁ (.ok a) ∧ Runs (f a).run t₂ r := by
  rw [ExceptT.run_bind, runs_bind]
  constructor
  · rintro ⟨t₁, v, t₂, rfl, h₁, h₂⟩
    cases v with
    | error e =>
      obtain ⟨rfl, rfl⟩ := runs_pure.mp h₂
      exact .inl ⟨e, by rwa [List.append_nil], rfl⟩
    | ok a => exact .inr ⟨t₁, a, t₂, rfl, h₁, h₂⟩
  · rintro (⟨e, h, rfl⟩ | ⟨t₁, a, t₂, rfl, h₁, h₂⟩)
    · exact ⟨t, .error e, [], (List.append_nil t).symm, h, runs_pure.mpr ⟨rfl, rfl⟩⟩
    · exact ⟨t₁, .ok a, t₂, rfl, h₁, h₂⟩

variable {r : Except ε α} {d : Dialogue Q A α}

theorem runs_lift : Runs (liftM d : ExceptT ε (Dialogue Q A) α).run t r ↔ ∃ a, Runs d t a ∧ r = .ok a := by
  show Runs (Except.ok <$> d) t r ↔ _
  rw [map_eq_pure_bind, runs_bind]
  constructor
  · intro ⟨t₁, a, t₂, e, h₁, h₂⟩
    obtain ⟨rfl, rfl⟩ := runs_pure.mp h₂
    rw [List.append_nil] at e
    exact ⟨a, e ▸ h₁, rfl⟩
  · intro ⟨a, h, e⟩
    exact ⟨t, a, [], (List.append_nil t).symm, h, runs_pure.mpr ⟨rfl, e⟩⟩

theorem runs_lift_bind {r : Except ε β} : Runs ((liftM d : ExceptT ε (Dialogue Q A) α) >>= f).run t r ↔
      ∃ t₁ a t₂, t = t₁ ++ t₂ ∧ Runs d t₁ a ∧ Runs (f a).run t₂ r := by
  have hlift : ((liftM d : ExceptT ε (Dialogue Q A) α) >>= f).run = d >>= fun a => (f a).run := by
    rw [ExceptT.run_bind]
    show (Except.ok <$> d) >>= _ = _
    rw [map_eq_pure_bind, LawfulMonad.bind_assoc]
    simp
  rw [hlift, runs_bind]

@[simp]
theorem runs_pure_except {a : α} : Runs (pure a : ExceptT ε (Dialogue Q A) α).run t r ↔ t = [] ∧ r = .ok a := runs_pure

@[simp]
theorem runs_throw {e : ε} : Runs (throw e : ExceptT ε (Dialogue Q A) α).run t r ↔ t = [] ∧ r = .error e := runs_pure

end Fallible

/-! ## What a program can ask -/

/-- Every request the program can make, whatever it is answered, has the property. -/
def Only (P : Q → Prop) : Dialogue Q A α → Prop
  | .done _ => True
  | .ask q next => P q ∧ ∀ a, Only P (next a)

section Only

variable {P : Q → Prop}

variable {d : Dialogue Q A α}

theorem Only.mono {P' : Q → Prop} (h : Only P d) (himp : ∀ q, P q → P' q) : Only P' d := by
  induction d with
  | done a => trivial
  | ask q next ih => exact ⟨himp q h.1, fun a => ih a (h.2 a)⟩

theorem only_pure (a : α) : Only P (pure a : Dialogue Q A α) := trivial

theorem only_request {q : Q} (h : P q) : Only P (request q : Dialogue Q A (A q)) := ⟨h, fun _ => trivial⟩

theorem only_bind {f : α → Dialogue Q A β} (hd : Only P d) (hf : ∀ a, Only P (f a)) : Only P (d >>= f) := by
  show Only P (d.bind f)
  induction d with
  | done a => exact hf a
  | ask q next ih => exact ⟨hd.1, fun a => ih a (hd.2 a)⟩

variable {x : ExceptT ε (Dialogue Q A) α}

theorem only_bind_except {f : α → ExceptT ε (Dialogue Q A) β}
    (hx : Only P x.run) (hf : ∀ a, Only P (f a).run) : Only P (x >>= f).run := by
  rw [ExceptT.run_bind]
  refine only_bind hx fun r => ?_
  cases r with
  | error e => exact only_pure _
  | ok a => exact hf a

theorem only_ite {c : Prop} [Decidable c] {y : ExceptT ε (Dialogue Q A) α} (hx : Only P x.run)
    (hy : Only P y.run) : Only P (if c then x else y : ExceptT ε (Dialogue Q A) α).run := by
  by_cases h : c
  · rwa [if_pos h]
  · rwa [if_neg h]

theorem only_throw (e : ε) : Only P (throw e : ExceptT ε (Dialogue Q A) α).run := trivial

theorem only_lift (hd : Only P d) : Only P (liftM d : ExceptT ε (Dialogue Q A) α).run := by
  show Only P (Except.ok <$> d)
  rw [map_eq_pure_bind]
  exact only_bind hd fun a => only_pure _

theorem only_of_runs {t : List (Exchange Q A)} {a : α} (hr : Runs d t a) (hd : Only P d) : ∀ x ∈ t, P x.request := by
  induction hr with
  | done a => simp
  | ask a h ih =>
    intro x hx
    rcases List.mem_cons.mp hx with rfl | hx
    · exact hd.1
    · exact ih (hd.2 a) x hx

end Only

/-! ## What a program does where it can rely on its answers -/

/-- As long as the answers are as assumed, every request has the property, and so has the value at the end. -/
def Relies (R : Exchange Q A → Prop) (P : Q → Prop) (Post : α → Prop) : Dialogue Q A α → Prop
  | .done a => Post a
  | .ask q next => P q ∧ ∀ a, R ⟨q, a⟩ → Relies R P Post (next a)

section Relies

variable {R : Exchange Q A → Prop} {P : Q → Prop} {Post Post' : α → Prop}

variable {a : α}

theorem relies_pure (h : Post a) : Relies R P Post (pure a : Dialogue Q A α) := h

theorem relies_request {q : Q} {Post : A q → Prop} (h : P q) (hpost : ∀ a, R ⟨q, a⟩ → Post a) :
    Relies R P Post (request q : Dialogue Q A (A q)) := ⟨h, hpost⟩

variable {d : Dialogue Q A α}

theorem relies_bind {f : α → Dialogue Q A β} {Last : β → Prop} (hd : Relies R P Post d)
    (hf : ∀ a, Post a → Relies R P Last (f a)) : Relies R P Last (d >>= f) := by
  show Relies R P Last (d.bind f)
  induction d with
  | done a => exact hf a hd
  | ask q next ih => exact ⟨hd.1, fun a ha => ih a (hd.2 a ha)⟩

theorem Relies.mono (h : Relies R P Post d) (himp : ∀ a, Post a → Post' a) : Relies R P Post' d := by
  induction d with
  | done a => exact himp a h
  | ask q next ih => exact ⟨h.1, fun a ha => ih a (h.2 a ha)⟩

theorem relies_runs {t : List (Exchange Q A)} (hd : Relies R P Post d) (hr : Runs d t a)
    (ht : ∀ x ∈ t, R x) : Post a ∧ ∀ x ∈ t, P x.request := by
  induction hr with
  | done a => exact ⟨hd, fun x hx => nomatch hx⟩
  | @ask q next t b a h ih =>
    obtain ⟨hfirst, hrest⟩ := List.forall_mem_cons.mp ht
    obtain ⟨hpost, hall⟩ := ih (hd.2 a hfirst) hrest
    exact ⟨hpost, List.forall_mem_cons.mpr ⟨hd.1, hall⟩⟩

end Relies

/-! ## A program over part of an interface -/

section Within

variable {R : Type} (embed : R → Q)

/-- The program as one that makes its requests under their names in a larger interface. -/
def within : Dialogue R (fun r => A (embed r)) α → Dialogue Q A α
  | .done a => .done a
  | .ask r next => .ask (embed r) fun a => within (next a)

theorem only_within (d : Dialogue R (fun r => A (embed r)) α) : Only (fun q => ∃ r, q = embed r) (within embed d) := by
  induction d with
  | done a => trivial
  | ask r next ih => exact ⟨⟨r, rfl⟩, ih⟩

theorem runs_within {d : Dialogue R (fun r => A (embed r)) α} {t : List (Exchange Q A)} {a : α} :
    Runs (within embed d) t a ↔ ∃ t₀, Runs d t₀ a ∧ t = t₀.map fun x => ⟨embed x.request, x.answer⟩ := by
  induction d generalizing t with
  | done b =>
    constructor
    · intro h
      cases h
      exact ⟨[], .done _, rfl⟩
    · intro ⟨t₀, h, e⟩
      cases h
      rw [e]
      exact .done _
  | ask r next ih =>
    constructor
    · intro h
      cases h with
      | ask answer h =>
        obtain ⟨t₀, h₀, e⟩ := (ih answer).mp h
        refine ⟨⟨r, answer⟩ :: t₀, Runs.ask (A := fun r => A (embed r)) answer h₀, ?_⟩
        rw [e]
        rfl
    · intro ⟨t₀, h, e⟩
      cases h with
      | ask answer h =>
        rw [e]
        exact .ask answer ((ih answer).mpr ⟨_, h, rfl⟩)

end Within

/-! ## Requests that stand for programs -/

section Expand

variable {Q' : Type} {A' : Q' → Type} (meaning : (q : Q) → Dialogue Q' A' (A q))

/-- The program with every request replaced by what it stands for. -/
def expand : Dialogue Q A α → Dialogue Q' A' α
  | .done a => .done a
  | .ask q next => (meaning q).bind fun a => expand (next a)

theorem expand_bind (d : Dialogue Q A α) (f : α → Dialogue Q A β) :
    expand meaning (d >>= f) = expand meaning d >>= fun a => expand meaning (f a) := by
  show expand meaning (d.bind f) = (expand meaning d).bind fun a => expand meaning (f a)
  induction d with
  | done a => rfl
  | ask q next ih =>
    show (meaning q).bind _ = ((meaning q).bind _).bind _
    rw [bind_assoc]
    exact congrArg _ (funext ih)

theorem expand_request (q : Q) : expand meaning (request q) = meaning q := bind_done _

theorem expand_bind_except (x : ExceptT ε (Dialogue Q A) α) (f : α → ExceptT ε (Dialogue Q A) β) :
    expand meaning (x >>= f).run =
      ((ExceptT.mk (expand meaning x.run) >>= fun a => ExceptT.mk (expand meaning (f a).run) :
        ExceptT ε (Dialogue Q' A') β)).run := by
  rw [ExceptT.run_bind, expand_bind, ExceptT.run_bind]
  refine congrArg _ (funext fun r => ?_)
  cases r with
  | error e => rfl
  | ok a => rfl

end Expand

/-! ## One run from its exchanges -/

/-- What a program has exchanged decides how it went on: a run that another run of it continues is that
run. -/
theorem Runs.unique {d : Dialogue Q A α} {t' u u' : List (Exchange Q A)} {a' : α} (h : Runs d t a)
    (h' : Runs d t' a') (e : t ++ u = t' ++ u') : t = t' ∧ a = a' := by
  induction h generalizing t' with
  | done b =>
    cases h'
    exact ⟨rfl, rfl⟩
  | @ask q next t₀ b answer h ih =>
    cases h' with
    | @ask _ _ t₀' b' answer' h' =>
      simp only [List.cons_append, List.cons.injEq, Exchange.mk.injEq, heq_eq_eq, true_and] at e
      obtain ⟨rfl, e⟩ := e
      obtain ⟨rfl, rfl⟩ := ih h' e
      exact ⟨rfl, rfl⟩

/-! ## The run a peer makes a program take -/

/-- Runs the program against a peer, after what was exchanged before. -/
def run (peer : Peer Q A) : List (Exchange Q A) → Dialogue Q A α → List (Exchange Q A) × α
  | past, .done a => (past, a)
  | past, .ask q next => run peer (past ++ [⟨q, peer past q⟩]) (next (peer past q))

variable (peer : Peer Q A)

theorem run_bind (past : List (Exchange Q A)) (d : Dialogue Q A α) (f : α → Dialogue Q A β) :
    run peer past (d >>= f) = run peer (run peer past d).1 (f (run peer past d).2) := by
  show run peer past (d.bind f) = _
  induction d generalizing past with
  | done a => rfl
  | ask q next ih => exact ih _ _

theorem runs_of_run (past : List (Exchange Q A)) (d : Dialogue Q A α) :
    ∃ t, (run peer past d).1 = past ++ t ∧ Runs d t (run peer past d).2 := by
  induction d generalizing past with
  | done a => exact ⟨[], (List.append_nil past).symm, .done a⟩
  | ask q next ih =>
    obtain ⟨t, ht, hr⟩ := ih (peer past q) (past ++ [⟨q, peer past q⟩])
    refine ⟨⟨q, peer past q⟩ :: t, ?_, .ask _ hr⟩
    rw [run, ht, List.append_assoc]
    rfl

theorem runs_run (d : Dialogue Q A α) : Runs d (run peer [] d).1 (run peer [] d).2 := by
  obtain ⟨t, ht, hr⟩ := runs_of_run peer [] d
  rw [List.nil_append] at ht
  rwa [ht]

/-! ## A peer that always answers the same -/

section Answered

variable (answer : (q : Q) → A q)

/-- The requests a program makes of it, and the value the program ends with. -/
def answered : Dialogue Q A α → List Q × α
  | .done a => ([], a)
  | .ask q next => (q :: (answered (next (answer q))).1, (answered (next (answer q))).2)

@[simp]
theorem answered_bind (d : Dialogue Q A α) (f : α → Dialogue Q A β) : answered answer (d >>= f) =
      ((answered answer d).1 ++ (answered answer (f (answered answer d).2)).1,
        (answered answer (f (answered answer d).2)).2) := by
  show answered answer (d.bind f) = _
  induction d with
  | done a => rfl
  | ask q next ih =>
    show (q :: (answered answer ((next (answer q)).bind f)).1, _) = _
    rw [ih]
    rfl

end Answered

end Dialogue

namespace Dialogue

/-!
## Watching a program

A monitor is a state that follows the exchanges of a run.  `After step s d Q` says that every run of the
program, watched from `s`, ends in a state and with a value that `Q` relates.  It is decided along the
program, one rule for each way programs are put together.
-/

variable {Q : Type} {A : Q → Type} {α β ε σ : Type}

/-- Every run, watched from `s`, ends as `P` says. -/
def After (step : σ → Exchange Q A → σ) (s : σ) (d : Dialogue Q A α) (P : σ → α → Prop) : Prop :=
  ∀ t a, Runs d t a → P (t.foldl step s) a

variable {step : σ → Exchange Q A → σ} {s : σ}

variable {d : Dialogue Q A α} {P : σ → α → Prop}

theorem After.mono {P' : σ → α → Prop} (h : After step s d P) (himp : ∀ s a, P s a → P' s a) : After step s d P' :=
  fun t a hr => himp _ _ (h t a hr)

@[simp]
theorem after_pure {a : α} : After step s (pure a : Dialogue Q A α) P ↔ P s a := by
  constructor
  · intro h
    exact h [] a (.done a)
  · intro h t b hr
    obtain ⟨rfl, rfl⟩ := runs_pure.mp hr
    exact h

@[simp]
theorem after_request {q : Q} {P : σ → A q → Prop} : After step s (request q) P ↔ ∀ a, P (step s ⟨q, a⟩) a := by
  constructor
  · intro h a
    exact h [⟨q, a⟩] a (runs_request.mpr rfl)
  · intro h t a hr
    rw [runs_request.mp hr]
    exact h a

@[simp]
theorem after_bind {f : α → Dialogue Q A β} {P : σ → β → Prop} :
    After step s (d >>= f) P ↔ After step s d fun s a => After step s (f a) P := by
  constructor
  · intro h t₁ a h₁ t₂ b h₂
    have h := h (t₁ ++ t₂) b (runs_bind.mpr ⟨t₁, a, t₂, rfl, h₁, h₂⟩)
    rwa [List.foldl_append] at h
  · intro h t b hr
    obtain ⟨t₁, a, t₂, rfl, h₁, h₂⟩ := runs_bind.mp hr
    rw [List.foldl_append]
    exact h t₁ a h₁ t₂ b h₂

section Fallible

variable {x : ExceptT ε (Dialogue Q A) α} {f : α → ExceptT ε (Dialogue Q A) β}

variable {P : σ → Except ε β → Prop}

theorem after_bind_except : After step s (x >>= f).run P ↔ After step s x.run fun s r =>
        match r with
        | .error e => P s (.error e)
        | .ok a => After step s (f a).run P := by
  rw [ExceptT.run_bind, after_bind]
  constructor
  · intro h
    refine h.mono fun s r h => ?_
    cases r with
    | error e => exact (after_pure (P := P)).mp h
    | ok a => exact h
  · intro h
    refine h.mono fun s r h => ?_
    cases r with
    | error e => exact (after_pure (P := P)).mpr h
    | ok a => exact h

@[simp]
theorem after_pure_except {a : α} {P : σ → Except ε α → Prop} :
    After step s (pure a : ExceptT ε (Dialogue Q A) α).run P ↔ P s (.ok a) :=
  after_pure

@[simp]
theorem after_throw {e : ε} {P : σ → Except ε α → Prop} :
    After step s (throw e : ExceptT ε (Dialogue Q A) α).run P ↔ P s (.error e) :=
  after_pure

theorem after_lift_bind {d : Dialogue Q A α} : After step s ((liftM d : ExceptT ε (Dialogue Q A) α) >>= f).run P ↔
      After step s d fun s a => After step s (f a).run P := by
  constructor
  · intro h t₁ a h₁ t₂ b h₂
    have h := h (t₁ ++ t₂) b (runs_lift_bind.mpr ⟨t₁, a, t₂, rfl, h₁, h₂⟩)
    rwa [List.foldl_append] at h
  · intro h t b hr
    obtain ⟨t₁, a, t₂, rfl, h₁, h₂⟩ := runs_lift_bind.mp hr
    rw [List.foldl_append]
    exact h t₁ a h₁ t₂ b h₂

end Fallible

theorem after_of_only {R : Q → Prop} (hd : Only R d)
    (hR : ∀ q a, R q → step s ⟨q, a⟩ = s) (h : ∀ a, P s a) : After step s d P := by
  intro t a hr
  have hquiet : t.foldl step s = s := by
    clear h
    induction hr with
    | done a => rfl
    | ask a h ih =>
      rw [List.foldl_cons, hR _ a hd.1]
      exact ih (hd.2 a)
  rw [hquiet]
  exact h a

end Dialogue
end SyncEngine
