import Mathlib
import SyncEngine.Library.Dialogue

/-!
# Programs that share a world

Any number of programs run side by side and ask one world, which also changes by itself.  A request is served in one
step.  `Meets` goes along one program and lets everything `rely` allows happen before each request; for each answer it
asks that the invariant is kept, that the step is one the other programs allow for, and that it is good.
`Setting.sound` puts the programs together.
-/

namespace SyncEngine

/-!
## Runs of a labelled transition system

`Run step` chains steps `step s e s'` and keeps the events in order.  An invariant is proved of one step and carried
over a run by `Run.preserves`, or by `Run.preserves_of_forall` where the step keeps it only for some events.
-/

inductive Run {σ ε : Type} (step : σ → ε → σ → Prop) : σ → List ε → σ → Prop
  | nil (s : σ) : Run step s [] s
  | cons {s s₁ s₂ : σ} {e : ε} {es : List ε} :
      step s e s₁ → Run step s₁ es s₂ → Run step s (e :: es) s₂

namespace Run

variable {σ ε : Type} {step : σ → ε → σ → Prop} {s s₁ s₂ : σ} {e : ε} {es es' : List ε}

theorem append (h : Run step s es s₁) (h' : Run step s₁ es' s₂) : Run step s (es ++ es') s₂ := by
  induction h with
  | nil s => exact h'
  | cons hstep _ ih => exact .cons hstep (ih h')

theorem append_iff : Run step s (es ++ es') s₂ ↔ ∃ m, Run step s es m ∧ Run step m es' s₂ := by
  constructor
  · intro h
    induction es generalizing s with
    | nil => exact ⟨s, .nil s, h⟩
    | cons e es ih =>
      cases h with
      | cons hstep hrest =>
        obtain ⟨m, h₁, h₂⟩ := ih hrest
        exact ⟨m, .cons hstep h₁, h₂⟩
  · rintro ⟨m, h₁, h₂⟩
    exact h₁.append h₂

theorem cons_iff : Run step s (e :: es) s₂ ↔ ∃ m, step s e m ∧ Run step m es s₂ := by
  constructor
  · intro h
    cases h with
    | cons hstep hrest => exact ⟨_, hstep, hrest⟩
  · rintro ⟨m, h₁, h₂⟩
    exact .cons h₁ h₂

variable {Q : ε → Prop} {I : σ → Prop}

theorem preserves_of_forall (hkeep : ∀ s e s', I s → Q e → step s e s' → I s')
    (h : Run step s es s₁) (hes : ∀ e ∈ es, Q e) (hs : I s) : I s₁ := by
  induction h with
  | nil s => exact hs
  | cons hstep _ ih =>
    exact ih (fun e he => hes e (List.mem_cons_of_mem _ he)) (hkeep _ _ _ hs (hes _ List.mem_cons_self) hstep)

theorem preserves (hkeep : ∀ s e s', I s → step s e s' → I s') (h : Run step s es s₁) (hs : I s) : I s₁ :=
  preserves_of_forall (Q := fun _ => True) (fun s e s' hi _ => hkeep s e s' hi) h (fun _ _ => trivial) hs

theorem preserves_and_forall (hkeep : ∀ s e s', I s → step s e s' → I s' ∧ Q e)
    (h : Run step s es s₁) (hs : I s) : I s₁ ∧ ∀ e ∈ es, Q e := by
  induction h with
  | nil s => exact ⟨hs, by simp⟩
  | cons hstep _ ih =>
    obtain ⟨hi, hq⟩ := hkeep _ _ _ hs hstep
    obtain ⟨hi', hqs⟩ := ih hi
    refine ⟨hi', ?_⟩
    intro e he
    rcases List.mem_cons.mp he with rfl | he
    · exact hq
    · exact hqs e he

theorem history {I : List ε → σ → Prop} (hkeep : ∀ h m e m', Run step s h m → I h m → step m e m' → I (h ++ [e]) m')
    (h : Run step s es s₁) (hs : I [] s) : I es s₁ := by
  have hgen : ∀ {before : List ε} {m m' : σ} {es : List ε}, Run step s before m →
      I before m → Run step m es m' → I (before ++ es) m' := by
    intro before m m' es hbefore hm hrest
    induction hrest generalizing before with
    | nil m => simpa using hm
    | @cons m m₁ _ e es hstep _ ih =>
      have hnext := ih (hbefore.append (.cons hstep (.nil m₁))) (hkeep _ _ _ _ hbefore hm hstep)
      rwa [List.append_assoc] at hnext
  exact hgen (.nil s) hs h

theorem deterministic (hstep : ∀ s e s' s'', step s e s' → step s e s'' → s' = s'')
    (h : Run step s es s₁) (h' : Run step s es s₂) : s₁ = s₂ := by
  induction h with
  | nil s =>
    cases h'
    rfl
  | cons hfirst _ ih =>
    cases h' with
    | cons hfirst' hrest' =>
      cases hstep _ _ _ _ hfirst hfirst'
      exact ih hrest'

theorem of_foldlM {f : σ → ε → Option σ} (h : es.foldlM f s = some s₁) : Run (fun s e s' => f s e = some s') s es s₁ := by
  induction es generalizing s with
  | nil =>
    cases h
    exact .nil _
  | cons e es ih =>
    rw [List.foldlM_cons] at h
    obtain ⟨m, hm, hrest⟩ := Option.bind_eq_some_iff.mp h
    exact .cons hm (ih hrest)

theorem mono {step' : σ → ε → σ → Prop} (hsub : ∀ s, ∀ e ∈ es, ∀ s', step s e s' → step' s e s')
    (h : Run step s es s₁) : Run step' s es s₁ := by
  induction h with
  | nil s => exact .nil s
  | cons hstep _ ih =>
    refine .cons (hsub _ _ List.mem_cons_self _ hstep) (ih ?_)
    exact fun s e he s' => hsub s e (List.mem_cons_of_mem _ he) s'

/-! ## An event somewhere in a run -/

variable {P : ε → Prop}

theorem meets_later (hstep : step s e s₁) (h : ∃ es t, Run step s₁ es t ∧ ∃ e ∈ es, P e) :
    ∃ es t, Run step s es t ∧ ∃ e ∈ es, P e := by
  obtain ⟨es, t, hrun, e', he', hp⟩ := h
  exact ⟨e :: es, t, .cons hstep hrun, e', List.mem_cons_of_mem e he', hp⟩

theorem reaches_later {Q : σ → Prop} (hstep : step s e s₁) (h : ∃ es t, Run step s₁ es t ∧ Q t) :
    ∃ es t, Run step s es t ∧ Q t := by
  obtain ⟨es, t, hrun, hq⟩ := h
  exact ⟨e :: es, t, .cons hstep hrun, hq⟩

theorem meets_now (hstep : step s e s₁) (hp : P e) : ∃ es t, Run step s es t ∧ ∃ e ∈ es, P e :=
  ⟨[e], s₁, .cons hstep (.nil s₁), e, List.mem_singleton_self e, hp⟩

end Run

/-- A world that serves requests: what it may answer and become, by the program that asks; what a program
allows the others to do; and the invariant. -/
structure Setting (Q : Type) (A : Q → Type) (W : Type) where
  serves : Nat → W → (q : Q) → A q → W → Prop
  rely : Nat → W → W → Prop
  inv : W → Prop
  refl : ∀ i w, rely i w w
  trans : ∀ i w₁ w₂ w₃, rely i w₁ w₂ → rely i w₂ w₃ → rely i w₁ w₃

/-- A step of a program, told in full. -/
structure Served (Q : Type) (A : Q → Type) (W : Type) where
  before : W
  exchange : Exchange Q A
  after : W

namespace Setting

variable {Q : Type} {A : Q → Type} {W α β ε : Type} (S : Setting Q A W)

/-- The program's steps from `w` on keep the invariant, allow for the others and are good, and its end is
as `P` says. -/
def Meets (i : Nat) (good : Served Q A W → Prop) (P : α → W → Prop) : Dialogue Q A α → W → Prop
  | .done a, w => P a w
  | .ask q next, w =>
    ∀ w₁, S.rely i w w₁ → S.inv w₁ → ∀ a w₂, S.serves i w₁ q a w₂ →
      S.inv w₂ ∧ (∀ j, j ≠ i → S.rely j w₁ w₂) ∧ good ⟨w₁, ⟨q, a⟩, w₂⟩ ∧
        Meets i good P (next a) w₂

variable {S} {i : Nat} {good : Served Q A W → Prop}

variable {d : Dialogue Q A α} {w : W}

theorem meets_bind {f : α → Dialogue Q A β} {P : β → W → Prop}
    (h : S.Meets i good (fun a w => S.Meets i good P (f a) w) d w) :
    S.Meets i good P (d >>= f) w := by
  show S.Meets i good P (d.bind f) w
  induction d generalizing w with
  | done a => exact h
  | ask q next ih =>
    intro w₁ hrely hinv a w₂ hserves
    obtain ⟨hinv₂, hothers, hgood, hrest⟩ := h w₁ hrely hinv a w₂ hserves
    exact ⟨hinv₂, hothers, hgood, ih a hrest⟩

variable {P : α → W → Prop}

theorem Meets.mono {P' : α → W → Prop} (h : S.Meets i good P d w)
    (himp : ∀ a w, P a w → P' a w) : S.Meets i good P' d w := by
  induction d generalizing w with
  | done a => exact himp a w h
  | ask q next ih =>
    intro w₁ hrely hinv a w₂ hserves
    obtain ⟨hinv₂, hothers, hgood, hrest⟩ := h w₁ hrely hinv a w₂ hserves
    exact ⟨hinv₂, hothers, hgood, ih a hrest⟩

variable {q : Q}

theorem meets_request {P : A q → W → Prop} (h : ∀ w₁, S.rely i w w₁ → S.inv w₁ → ∀ a w₂, S.serves i w₁ q a w₂ →
      S.inv w₂ ∧ (∀ j, j ≠ i → S.rely j w₁ w₂) ∧ good ⟨w₁, ⟨q, a⟩, w₂⟩ ∧ P a w₂) :
    S.Meets i good P (Dialogue.request q) w :=
  h

theorem meets_bind_except {x : ExceptT ε (Dialogue Q A) α} {f : α → ExceptT ε (Dialogue Q A) β}
    {P : Except ε β → W → Prop}
    (h : S.Meets i good (fun r w => match r with
      | .error e => P (.error e) w
      | .ok a => S.Meets i good P (f a).run w) x.run w) :
    S.Meets i good P (x >>= f).run w := by
  rw [ExceptT.run_bind]
  refine meets_bind (h.mono fun r w h => ?_)
  cases r with
  | error e => exact h
  | ok a => exact h

variable {w' : W}

theorem Meets.rely (h : S.Meets i good P d w)
    (hrely : S.rely i w w') (hP : ∀ a, P a w → P a w') : S.Meets i good P d w' := by
  cases d with
  | done a => exact hP a h
  | ask q next =>
    intro w₁ hrely₁ hinv a w₂ hserves
    exact h w₁ (S.trans i w w' w₁ hrely hrely₁) hinv a w₂ hserves

theorem Meets.frame {F : W → Prop} {asks : Q → Prop}
    (h : S.Meets i good P d w) (hd : d.Only asks) (hrely : ∀ w w', S.rely i w w' → F w → F w')
    (hserves : ∀ w q a w', asks q → S.serves i w q a w' → F w → F w') (hF : F w) :
    S.Meets i good (fun a w => P a w ∧ F w) d w := by
  induction d generalizing w with
  | done a => exact ⟨h, hF⟩
  | ask q next ih =>
    intro w₁ hr hinv a w₂ hs
    obtain ⟨hinv₂, hothers, hgood, hrest⟩ := h w₁ hr hinv a w₂ hs
    refine ⟨hinv₂, hothers, hgood, ih a hrest (hd.2 a) ?_⟩
    exact hserves w₁ q a w₂ hd.1 hs (hrely w w₁ hr hF)

/-! ## One program alone -/

/-- A run of the program in which nothing else happens. -/
inductive Performs (serves : W → (q : Q) → A q → W → Prop) :
    Dialogue Q A α → W → α → W → Prop
  | done (a : α) (w : W) : Performs serves (.done a) w a w
  | ask {q : Q} {next : A q → Dialogue Q A α} {w w₁ w₂ : W} {b : α} (a : A q) :
      serves w q a w₁ → Performs serves (next a) w₁ b w₂ → Performs serves (.ask q next) w b w₂

variable {serves : W → (q : Q) → A q → W → Prop} {a : α}

theorem Performs.mono {serves' : W → (q : Q) → A q → W → Prop} (h : Performs serves d w a w')
    (himp : ∀ w q a w', serves w q a w' → serves' w q a w') : Performs serves' d w a w' := by
  induction h with
  | done a w => exact .done a w
  | ask answer hserves _ ih => exact .ask answer (himp _ _ _ _ hserves) ih

theorem performs_ask {next : A q → Dialogue Q A α}
    {w₁ : W} (a : A q) (hs : serves w q a w₁) (h : ∃ b w₂, Performs serves (next a) w₁ b w₂) :
    ∃ b w₂, Performs serves (.ask q next) w b w₂ := by
  obtain ⟨b, w₂, h⟩ := h
  exact ⟨b, w₂, .ask a hs h⟩

theorem Meets.performs (h : S.Meets i good P d w) (hinv : S.inv w) (hp : Performs (S.serves i) d w a w') :
    S.inv w' ∧ P a w' := by
  induction hp with
  | done a w => exact ⟨hinv, h⟩
  | ask answer hserves _ ih =>
    obtain ⟨hinv₂, -, -, hrest⟩ := h _ (S.refl i _) hinv answer _ hserves
    exact ih hrest hinv₂

end Setting

/-! ## The programs together -/

/-- A running program: its name, what it is for, and the world it was started in. -/
structure Party (Q : Type) (A : Q → Type) (W κ α : Type) where
  name : Nat
  kind : κ
  born : W
  rest : Dialogue Q A α

structure Together (Q : Type) (A : Q → Type) (W κ α : Type) where
  world : W
  parties : List (Party Q A W κ α)
  next : Nat

inductive Happening (Q : Type) (A : Q → Type) (W κ : Type)
  | changed
  | started (kind : κ)
  | served (kind : κ) (name : Nat) (born : W) (step : Served Q A W)
  | crashed (name : Nat)

namespace Together

variable {Q : Type} {A : Q → Type} {W κ α : Type}

/-- Nothing has happened yet. -/
def init (w : W) : Together Q A W κ α := ⟨w, [], 0⟩

variable (serves : Nat → W → (q : Q) → A q → W → Prop)
variable (change : W → W → Prop) (program : κ → Dialogue Q A α)

/-- One thing happens. -/
inductive Step : Together Q A W κ α → Happening Q A W κ → Together Q A W κ α → Prop
  | changed {s : Together Q A W κ α} {w : W} :
      change s.world w → Step s .changed { s with world := w }
  | started {s : Together Q A W κ α} (kind : κ) :
      Step s (.started kind)
        { s with parties := ⟨s.next, kind, s.world, program kind⟩ :: s.parties, next := s.next + 1 }
  | served {s : Together Q A W κ α} {before after : List (Party Q A W κ α)}
      {p : Party Q A W κ α} {q : Q} {next : A q → Dialogue Q A α} {a : A q} {w : W} :
      s.parties = before ++ p :: after → p.rest = .ask q next → serves p.name s.world q a w →
        Step s (.served p.kind p.name p.born ⟨s.world, ⟨q, a⟩, w⟩)
          { s with world := w, parties := before ++ { p with rest := next a } :: after }
  | crashed {s : Together Q A W κ α} {before after : List (Party Q A W κ α)}
      {p : Party Q A W κ α} :
      s.parties = before ++ p :: after →
        Step s (.crashed p.name) { s with parties := before ++ after }

variable {serves change program}

theorem Step.head {w w' : W} {p : Party Q A W κ α} {others : List (Party Q A W κ α)} {n : Nat} {q : Q}
    {next : A q → Dialogue Q A α} (a : A q) (hrest : p.rest = .ask q next) (hs : serves p.name w q a w') :
    Step serves change program ⟨w, p :: others, n⟩ (.served p.kind p.name p.born ⟨w, ⟨q, a⟩, w'⟩)
      ⟨w', { p with rest := next a } :: others, n⟩ := by
  let s : Together Q A W κ α := ⟨w, p :: others, n⟩
  have hparties : s.parties = [] ++ p :: others := rfl
  exact .served hparties hrest hs

theorem Step.mono {serves' : Nat → W → (q : Q) → A q → W → Prop} {s s' : Together Q A W κ α}
    {e : Happening Q A W κ} (h : Step serves change program s e s')
    (himp : ∀ kind name born w q a w', e = .served kind name born ⟨w, ⟨q, a⟩, w'⟩ →
      serves name w q a w' → serves' name w q a w') : Step serves' change program s e s' := by
  cases h with
  | changed hc => exact .changed hc
  | started kind => exact .started kind
  | served hparties hrest hserves =>
    exact .served hparties hrest (himp _ _ _ _ _ _ _ rfl hserves)
  | crashed hparties => exact .crashed hparties

end Together

namespace Setting

variable {Q : Type} {A : Q → Type} {W κ α : Type} (S : Setting Q A W)
variable (change : W → W → Prop) (program : κ → Dialogue Q A α)
variable (good : κ → Nat → W → Served Q A W → Prop)

/-- The invariant holds, the running programs have names of their own, and each meets its promise from
here. -/
structure Sound (s : Together Q A W κ α) : Prop where
  inv : S.inv s.world
  names : (s.parties.map Party.name).Nodup
  fresh : ∀ p ∈ s.parties, p.name < s.next
  meets : ∀ p ∈ s.parties, S.Meets p.name (good p.kind p.name p.born) (fun _ _ => True) p.rest s.world

variable {S change program good}

variable {s : Together Q A W κ α}

/-- What happens keeps the system sound, and every step of a program is good. -/
theorem sound_step (hchange : ∀ w w', change w w' → S.inv w → S.inv w' ∧ ∀ i, S.rely i w w')
    (hprogram : ∀ kind i w, S.inv w → S.Meets i (good kind i w) (fun _ _ => True) (program kind) w)
    {s' : Together Q A W κ α} {e : Happening Q A W κ} (hs : S.Sound good s)
    (hstep : Together.Step S.serves change program s e s') :
    S.Sound good s' ∧ ∀ kind name born step, e = .served kind name born step → good kind name born step := by
  cases hstep with
  | changed hc =>
    obtain ⟨hinv, hrely⟩ := hchange _ _ hc hs.inv
    refine ⟨⟨hinv, hs.names, hs.fresh, ?_⟩, fun _ _ _ _ h => nomatch h⟩
    intro p hp
    exact (hs.meets p hp).rely (hrely p.name) fun _ _ => trivial
  | started kind =>
    refine ⟨⟨hs.inv, ?_, ?_, ?_⟩, fun _ _ _ _ h => nomatch h⟩
    · refine List.nodup_cons.mpr ⟨?_, hs.names⟩
      intro hmem
      obtain ⟨p, hp, hname⟩ := List.mem_map.mp hmem
      have hlt := hs.fresh p hp
      exact absurd hname (Nat.ne_of_lt hlt)
    · intro p hp
      rcases List.mem_cons.mp hp with rfl | hp
      · exact Nat.lt_succ_self _
      · exact Nat.lt_succ_of_lt (hs.fresh p hp)
    · intro p hp
      rcases List.mem_cons.mp hp with rfl | hp
      · exact hprogram kind _ _ hs.inv
      · exact hs.meets p hp
  | @served before after p q next a w hparties hrest hserves =>
    have hp : p ∈ s.parties := by simp [hparties]
    have hmeets := hs.meets p hp
    rw [hrest] at hmeets
    obtain ⟨hinv, hothers, hgood, hnext⟩ := hmeets _ (S.refl _ _) hs.inv a w hserves
    have hnames := hs.names
    rw [hparties] at hnames
    refine ⟨⟨hinv, ?_, ?_, ?_⟩, ?_⟩
    · simpa using hnames
    · intro p' hp'
      rcases List.mem_append.mp hp' with hmem | hmem
      · exact hs.fresh p' (by rw [hparties]; exact List.mem_append_left _ hmem)
      · rcases List.mem_cons.mp hmem with rfl | hmem
        · exact hs.fresh p hp
        · exact hs.fresh p' (by simp [hparties, hmem])
    · intro p' hp'
      rcases List.mem_append.mp hp' with hmem | hmem
      · have hne : p'.name ≠ p.name := by
          intro e
          rw [List.map_append, List.map_cons, List.nodup_append] at hnames
          exact hnames.2.2 _ (List.mem_map.mpr ⟨p', hmem, rfl⟩) _ List.mem_cons_self e
        have hp' : p' ∈ s.parties := by simp [hparties, hmem]
        exact (hs.meets p' hp').rely (hothers _ hne) fun _ _ => trivial
      · rcases List.mem_cons.mp hmem with rfl | hmem
        · exact hnext
        · have hne : p'.name ≠ p.name := by
            intro e
            rw [List.map_append, List.map_cons, List.nodup_append] at hnames
            exact (List.nodup_cons.mp hnames.2.1).1 (e ▸ List.mem_map.mpr ⟨p', hmem, rfl⟩)
          have hp' : p' ∈ s.parties := by simp [hparties, hmem]
          exact (hs.meets p' hp').rely (hothers _ hne) fun _ _ => trivial
    · intro kind name born step e
      injection e with e₁ e₂ e₃ e₄
      rw [← e₁, ← e₂, ← e₃, ← e₄]
      exact hgood
  | @crashed before after p hparties =>
    have hsub : (before ++ after).Sublist s.parties := by
      rw [hparties]
      exact List.Sublist.append (List.Sublist.refl before) (List.sublist_cons_self p after)
    refine ⟨⟨hs.inv, hs.names.sublist (hsub.map _), ?_, ?_⟩, fun _ _ _ _ h => nomatch h⟩
    · intro p' hp'
      exact hs.fresh p' (hsub.subset hp')
    · intro p' hp'
      exact hs.meets p' (hsub.subset hp')

theorem sound_run (hchange : ∀ w w', change w w' → S.inv w → S.inv w' ∧ ∀ i, S.rely i w w')
    (hprogram : ∀ kind i w, S.inv w → S.Meets i (good kind i w) (fun _ _ => True) (program kind) w)
    {w : W} (hw : S.inv w) {es : List (Happening Q A W κ)}
    (hrun : Run (Together.Step S.serves change program) (Together.init w) es s) :
    S.Sound good s ∧ ∀ e ∈ es, ∀ kind name born step, e = .served kind name born step → good kind name born step := by
  have hstart : S.Sound good (Together.init w : Together Q A W κ α) :=
    ⟨hw, List.nodup_nil, by simp [Together.init], by simp [Together.init]⟩
  exact Run.preserves_and_forall (fun _ _ _ hs hstep => sound_step hchange hprogram hs hstep) hrun hstart

end Setting

end SyncEngine
