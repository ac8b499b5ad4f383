import SyncEngine.Mail.Drain
import SyncEngine.Mail.Orphans

/-!
# One streamed pass

The loop that streams a folder claims the scope, commits the chunks a provider yields, and claims again where a commit
is refused as stale.  A run is a list of what the store and the provider answered, with what another holder of the
scope did in between, and it may stop after any of them.
-/

namespace SyncEngine
namespace Mail

def maxStaleReclaims : Nat := 3

inductive PassOutcome
  | finished
  /-- Another pass has taken the scope up. -/
  | yielded
  | failed
deriving DecidableEq, Repr

inductive PassPhase
  /-- About to claim, with the cursor the run had left where a commit was refused as stale. -/
  | claiming (fenced : Option (Option SyncState)) (reclaims : Nat)
  | passing (left : Option SyncState) (present : List ProviderKey) (reclaims : Nat)
  | ended (outcome : PassOutcome)

structure PassState (γ : Type) where
  cell : ScopeCell γ
  /-- Nobody else has taken the scope since the run took it up. -/
  holds : Bool
  phase : PassPhase
  /-- The keys of stored objects the run's commits removed. -/
  tombstoned : List ProviderKey

inductive PassEvent (γ : Type)
  | claimed (found : Option SyncState)
  | scopeHeld
  | applied (chunk : EmailChunk γ)
  | stale (chunk : EmailChunk γ)
  /-- The provider or the store failed, and nothing was written. -/
  | failed
  | streamEnded
  /-- Someone else claimed the scope or cleared its cursor, and left it so. -/
  | taken (cell : ScopeCell γ)

variable {γ : Type}

def lost (before after : ScopeCell γ) : List ProviderKey :=
  before.objects.keys.filter fun k => (after.objects.get? k).isNone

namespace PassState

def start (cell : ScopeCell γ) : PassState γ := ⟨cell, false, .claiming none 0, []⟩

variable [MailContent γ]

def take (kind : StoreKind) (window : SyncWindow) (s : PassState γ) :
    PassEvent γ → Option (PassState γ)
  | .taken cell => some { s with cell := cell, holds := false }
  | .claimed found =>
    match s.phase with
    | .claiming fenced reclaims =>
      if found ≠ s.cell.state then none
      else if fenced.isSome ∧ fenced ≠ some found then
        -- the cursor moved while the run was fenced off: the scope is given back at once
        some { s with phase := .ended .yielded }
      else some { s with holds := true, phase := .passing found [] reclaims }
    | _ => none
  | .scopeHeld =>
    match s.phase with
    | .claiming fenced _ =>
      some { s with phase := .ended (if fenced.isSome then .yielded else .failed) }
    | _ => none
  | .applied chunk =>
    match s.phase with
    | .passing left present reclaims =>
      if s.holds then
        let (cell, present) := commitChunk kind window (s.cell, present) chunk
        some
          { s with
            cell := cell
            tombstoned := s.tombstoned ++ lost s.cell cell
            phase :=
              if chunk.isReconcileFinal then .ended .finished
              else .passing ((chunk.advanceTo.map window.stamp).or left) present reclaims }
      else none
    | _ => none
  | .stale _ =>
    match s.phase with
    | .passing left _ reclaims =>
      if s.holds then none
      else if reclaims < maxStaleReclaims then
        some { s with phase := .claiming (some left) (reclaims + 1) }
      else some { s with phase := .ended .failed }
    | _ => none
  | .failed =>
    match s.phase with
    | .ended _ => none
    | _ => some { s with phase := .ended .failed }
  | .streamEnded =>
    match s.phase with
    | .passing _ _ _ => some { s with phase := .ended .finished }
    | _ => none

def Reaches (kind : StoreKind) (window : SyncWindow) (cell : ScopeCell γ)
    (es : List (PassEvent γ)) (s : PassState γ) : Prop :=
  Run (fun s e s' => s.take kind window e = some s') (start cell) es s

end PassState

/-! ## What a run says -/

namespace PassEvent

def chunk? : PassEvent γ → Option (EmailChunk γ)
  | .applied c => some c
  | _ => none

def found? : PassEvent γ → Option (Option SyncState)
  | .claimed found => some found
  | _ => none

end PassEvent

def appliedChunks (es : List (PassEvent γ)) : List (EmailChunk γ) := es.filterMap PassEvent.chunk?

/-- The cursor a run leaves: the last one it applied, or the one its first claim found. -/
def cursorLeft (window : SyncWindow) (es : List (PassEvent γ)) : Option SyncState :=
  (((appliedChunks es).filterMap EmailChunk.advanceTo).getLast?.map window.stamp).or
    (es.filterMap PassEvent.found?).head?.join

/-- The keys a stream covers so far: those of its reconcile chunks since the last claim. -/
def covered (es : List (PassEvent γ)) : List ProviderKey :=
  es.foldl (fun present e =>
    match e with
    | .claimed _ => []
    | .applied c => if c.mode = .reconcile then present ++ c.present else present
    | _ => present) []

section Says

variable (window : SyncWindow) (es : List (PassEvent γ))

/-- Events that neither claim nor commit say nothing of the cursor or of what is covered. -/
def PassEvent.quiet (e : PassEvent γ) : Prop := e.chunk? = none ∧ e.found? = none

variable (c : EmailChunk γ)

theorem appliedChunks_applied : appliedChunks (es ++ [.applied c]) = appliedChunks es ++ [c] := by
  simp [appliedChunks, List.filterMap_append, PassEvent.chunk?]

variable {e : PassEvent γ}

theorem appliedChunks_quiet (h : e.chunk? = none) : appliedChunks (es ++ [e]) = appliedChunks es := by
  simp [appliedChunks, List.filterMap_append, h]

theorem cursorLeft_quiet (h : e.quiet) : cursorLeft window (es ++ [e]) = cursorLeft window es := by
  unfold cursorLeft
  rw [appliedChunks_quiet es h.1, List.filterMap_append, List.filterMap_cons_none h.2,
    List.filterMap_nil, List.append_nil]

theorem cursorLeft_applied : cursorLeft window (es ++ [.applied c]) =
      (c.advanceTo.map window.stamp).or (cursorLeft window es) := by
  have hfound : (es ++ [PassEvent.applied c]).filterMap PassEvent.found? = es.filterMap PassEvent.found? := by
    simp [List.filterMap_append, PassEvent.found?]
  unfold cursorLeft
  rw [hfound, appliedChunks_applied, List.filterMap_append]
  cases hc : c.advanceTo with
  | none => simp [hc]
  | some cursor => simp [hc]

theorem cursorLeft_claimed {found : Option SyncState}
    (h : cursorLeft window es = found ∨ appliedChunks es = [] ∧ es.filterMap PassEvent.found? = []) :
    cursorLeft window (es ++ [.claimed found]) = found := by
  have happlied : appliedChunks (es ++ [.claimed found]) = appliedChunks es := appliedChunks_quiet es rfl
  unfold cursorLeft at h ⊢
  rw [happlied, List.filterMap_append]
  rcases h with h | ⟨hnone, hfound⟩
  · rw [← h]
    cases ((appliedChunks es).filterMap EmailChunk.advanceTo).getLast? with
    | some cursor => rfl
    | none =>
      cases es.filterMap PassEvent.found? with
      | nil => rfl
      | cons first rest => rfl
  · rw [hnone, hfound]
    rfl

theorem covered_quiet (h : e.quiet) : covered (es ++ [e]) = covered es := by
  unfold covered
  rw [List.foldl_append]
  cases e with
  | claimed found => exact absurd h.2 (by simp [PassEvent.found?])
  | applied c => exact absurd h.1 (by simp [PassEvent.chunk?])
  | _ => rfl

theorem covered_claimed (found : Option SyncState) : covered (es ++ [.claimed found]) = [] := by
  unfold covered
  rw [List.foldl_append]
  rfl

theorem covered_applied : covered (es ++ [.applied c]) =
      if c.mode = .reconcile then covered es ++ c.present else covered es := by
  unfold covered
  rw [List.foldl_append]
  rfl

end Says

/-! ## One commit -/

namespace ScopeCell

variable (cell : ScopeCell γ)

theorem state_applyUpdate {π : Type} (update : SyncUpdate γ π) : (cell.applyUpdate update).1.state = cell.state := by
  cases update with
  | delta changed patched removed =>
    show ((changed.foldl upsertObject cell).tombstoneCounted removed).1.state = _
    rw [tombstoneCounted_fst, foldl_frame state tombstone fun _ _ => rfl, foldl_frame state upsertObject fun _ _ => rfl]
  | snapshot objects present =>
    show (List.foldl tombstone (objects.foldl upsertObject cell) _).state = _
    rw [foldl_frame state tombstone fun _ _ => rfl, foldl_frame state upsertObject fun _ _ => rfl]

theorem state_applyStateChange (change : MailStateRow) : (cell.applyStateChange change).state = cell.state := by
  unfold applyStateChange
  cases cell.messages.get? change.key with
  | none => rfl
  | some row => rfl

theorem state_applyDerived (kind : StoreKind) (cell : ScopeCell γ) (derived : DerivedWrite γ) :
    (cell.applyDerived kind derived).state = cell.state := by
  unfold applyDerived
  show (derived.eventIndex.foldl putEventIndex _).state = _
  rw [foldl_frame state putEventIndex fun _ _ => rfl, foldl_frame state assignThread fun _ _ => rfl,
    foldl_frame state applyStateChange state_applyStateChange,
    foldl_frame state putMessage fun _ _ => rfl,
    foldl_frame state (putOccurrence kind) fun _ _ => rfl,
    foldl_frame state putFts fun _ _ => rfl, foldl_frame state resetOccurrences fun _ _ => rfl,
    foldl_frame state removeDerived fun _ _ => rfl]

end ScopeCell

theorem EmailChunk.mode_of_final {c : EmailChunk γ} (h : c.isReconcileFinal = true) : c.mode = .reconcile := by
  unfold isReconcileFinal at h
  rw [Bool.and_eq_true, decide_eq_true_iff] at h
  exact h.1

section Commit

variable [MailContent γ] (kind : StoreKind) (window : SyncWindow)

theorem state_commit (cell : ScopeCell γ) (update : MailUpdate γ) (next : Option SyncState) :
    (commit kind cell update next).state = next.or cell.state := by
  show next.or ((cell.applyUpdate update.payloads).1.applyDerived kind (derive update)).state = _
  rw [ScopeCell.state_applyDerived, ScopeCell.state_applyUpdate]

variable {k : ProviderKey}

theorem mem_lost_commit {cell : ScopeCell γ} {update : MailUpdate γ} {next : Option SyncState} :
    k ∈ lost cell (commit kind cell update next) ↔ cell.stored k ∧
        match update with
        | .delta _ _ removed => k ∈ removed
        | .snapshot _ present => k ∉ present := by
  have hobjects : (commit kind cell update next).objects = (cell.applyUpdate update.payloads).1.objects :=
    ScopeCell.objects_applyDerived kind (cell.applyUpdate update.payloads).1 (derive update)
  unfold lost
  rw [List.mem_filter, hobjects, Keyed.mem_keys_iff, ← Option.isSome_iff_exists]
  refine and_congr_right fun hstored => ?_
  have hkept : ∀ changed : List (ProviderKey × γ),
      ((changed.foldl ScopeCell.upsertObject cell).objects.get? k).isSome := by
    intro changed
    rw [ScopeCell.get?_objects_upsertAll]
    cases ((changed.filter fun o => o.1 = k).getLast?.map Prod.snd) with
    | none => exact hstored
    | some content => rfl
  cases update with
  | delta changed patched removed =>
    show ((((changed.map fun o => (o.1, o.2.content)).foldl ScopeCell.upsertObject
      cell).tombstoneCounted removed).1.objects.get? k).isNone = true ↔ k ∈ removed
    rw [ScopeCell.tombstoneCounted_fst, ScopeCell.get?_objects_tombstoneAll]
    by_cases hk : k ∈ removed
    · simp [hk]
    · have hsome := hkept (changed.map fun o => (o.1, o.2.content))
      rw [if_neg hk, Option.isNone_iff_eq_none]
      simp only [hk, iff_false]
      intro hnone
      rw [hnone] at hsome
      simp at hsome
  | snapshot objects present =>
    have hsome := hkept (objects.map fun o => (o.1, o.2.content))
    show ((List.foldl ScopeCell.tombstone ((objects.map fun o => (o.1, o.2.content)).foldl ScopeCell.upsertObject cell)
      (ScopeCell.absent _ present)).objects.get? k).isNone = true ↔ k ∉ present
    rw [ScopeCell.get?_objects_tombstoneAll]
    by_cases hk : k ∈ present
    · have hmem : k ∉ ScopeCell.absent ((objects.map fun o => (o.1, o.2.content)).foldl
          ScopeCell.upsertObject cell) present := fun h => (ScopeCell.mem_absent.mp h).2 hk
      rw [if_neg hmem, Option.isNone_iff_eq_none]
      simp only [hk, not_true, iff_false]
      intro hnone
      rw [hnone] at hsome
      simp at hsome
    · have hmem : k ∈ ScopeCell.absent ((objects.map fun o => (o.1, o.2.content)).foldl
          ScopeCell.upsertObject cell) present := ScopeCell.mem_absent.mpr ⟨hsome, hk⟩
      rw [if_pos hmem]
      simp [hk]

variable (cell : ScopeCell γ) (present : List ProviderKey) (c : EmailChunk γ)

theorem state_commitChunk : (commitChunk kind window (cell, present) c).1.state =
      (c.advanceTo.map window.stamp).or cell.state :=
  state_commit kind cell _ _

theorem present_commitChunk (h : c.isReconcileFinal = false) : (commitChunk kind window (cell, present) c).2 =
      if c.mode = .reconcile then present ++ c.present else present := by
  unfold commitChunk buildUpdate
  unfold EmailChunk.isReconcileFinal at h
  cases hmode : c.mode with
  | additive => rfl
  | reconcile =>
    have hnone : c.advanceTo.isSome = false := by simpa [hmode] using h
    simp [hnone]

theorem mem_lost_commitChunk : k ∈ lost cell (commitChunk kind window (cell, present) c).1 ↔
      cell.stored k ∧ if c.isReconcileFinal then k ∉ present ++ c.present else k ∈ c.removed := by
  unfold commitChunk
  rw [mem_lost_commit]
  refine and_congr_right fun _ => ?_
  unfold buildUpdate EmailChunk.isReconcileFinal
  cases hmode : c.mode with
  | additive => simp [SyncUpdate.withPatched]
  | reconcile =>
    by_cases hfinal : c.advanceTo.isSome
    · simp [SyncUpdate.withPatched, hfinal]
    · simp [SyncUpdate.withPatched, hfinal]

end Commit

/-! ## One step -/

/-- What a step of the loop can do. -/
inductive PassState.Took [MailContent γ] (kind : StoreKind) (window : SyncWindow)
    (s : PassState γ) : PassEvent γ → PassState γ → Prop
  | taken (cell : ScopeCell γ) : Took kind window s (.taken cell) { s with cell := cell, holds := false }
  | yielded {left : Option SyncState} {n : Nat} : s.phase = .claiming (some left) n →
      left ≠ s.cell.state →
      Took kind window s (.claimed s.cell.state) { s with phase := .ended .yielded }
  | claimed {fenced : Option (Option SyncState)} {n : Nat} : s.phase = .claiming fenced n →
      (fenced = none ∨ fenced = some s.cell.state) →
      Took kind window s (.claimed s.cell.state)
        { s with holds := true, phase := .passing s.cell.state [] n }
  | applied (c : EmailChunk γ) {left : Option SyncState} {present : List ProviderKey} {n : Nat} :
      s.phase = .passing left present n → s.holds = true →
      Took kind window s (.applied c)
        { s with
          cell := (commitChunk kind window (s.cell, present) c).1
          tombstoned :=
            s.tombstoned ++ lost s.cell (commitChunk kind window (s.cell, present) c).1
          phase :=
            if c.isReconcileFinal then .ended .finished
            else .passing ((c.advanceTo.map window.stamp).or left)
              (commitChunk kind window (s.cell, present) c).2 n }
  | fenced (c : EmailChunk γ) {left : Option SyncState} {present : List ProviderKey} {n : Nat} :
      s.phase = .passing left present n →
      Took kind window s (.stale c) { s with phase := .claiming (some left) (n + 1) }
  | ended {e : PassEvent γ} (outcome : PassOutcome) : e.quiet →
      Took kind window s e { s with phase := .ended outcome }

theorem PassState.took [MailContent γ] {kind : StoreKind} {window : SyncWindow} {s s' : PassState γ}
    {e : PassEvent γ} (h : s.take kind window e = some s') : s.Took kind window e s' := by
  cases e with
  | taken cell =>
    cases h
    exact .taken cell
  | claimed found =>
    cases hphase : s.phase with
    | claiming fenced n =>
      simp only [take, hphase] at h
      split at h
      · cases h
      · rename_i hfound
        have hfound : found = s.cell.state := not_not.mp hfound
        subst hfound
        split at h
        · rename_i hmoved
          cases h
          cases fenced with
          | none => exact absurd hmoved.1 (by simp)
          | some left => exact .yielded hphase fun e => hmoved.2 (congrArg some e)
        · rename_i hsame
          cases h
          refine .claimed hphase ?_
          cases fenced with
          | none => exact .inl rfl
          | some left => exact .inr (by simpa using hsame)
    | passing left present n => simp [take, hphase] at h
    | ended o => simp [take, hphase] at h
  | scopeHeld =>
    cases hphase : s.phase with
    | claiming fenced n =>
      simp only [take, hphase, Option.some.injEq] at h
      rw [← h]
      exact .ended _ ⟨rfl, rfl⟩
    | passing left present n => simp [take, hphase] at h
    | ended o => simp [take, hphase] at h
  | applied c =>
    cases hphase : s.phase with
    | passing left present n =>
      simp only [take, hphase] at h
      split at h
      · rename_i hholds
        cases h
        exact .applied c hphase hholds
      · cases h
    | claiming fenced n => simp [take, hphase] at h
    | ended o => simp [take, hphase] at h
  | stale c =>
    cases hphase : s.phase with
    | passing left present n =>
      simp only [take, hphase] at h
      split at h
      · cases h
      · split at h
        · cases h
          exact .fenced c hphase
        · cases h
          exact .ended _ ⟨rfl, rfl⟩
    | claiming fenced n => simp [take, hphase] at h
    | ended o => simp [take, hphase] at h
  | failed =>
    cases hphase : s.phase with
    | ended o => simp [take, hphase] at h
    | _ =>
      simp only [take, hphase, Option.some.injEq] at h
      rw [← h]
      exact .ended _ ⟨rfl, rfl⟩
  | streamEnded =>
    cases hphase : s.phase with
    | passing left present n =>
      simp only [take, hphase, Option.some.injEq] at h
      rw [← h]
      exact .ended _ ⟨rfl, rfl⟩
    | claiming fenced n => simp [take, hphase] at h
    | ended o => simp [take, hphase] at h

/-! ## A whole run -/

/-- The loop's own variables are what the run says so far. -/
structure PassInvariant (window : SyncWindow) (es : List (PassEvent γ)) (s : PassState γ) : Prop where
  held : s.holds = true → s.cell.state = cursorLeft window es
  left : ∀ left present n, s.phase = .passing left present n → left = cursorLeft window es
  covers : ∀ left present n, s.phase = .passing left present n → present = covered es
  fenced : ∀ left n, s.phase = .claiming (some left) n → left = cursorLeft window es
  fresh : ∀ n, s.phase = .claiming none n →
    appliedChunks es = [] ∧ es.filterMap PassEvent.found? = []

section Runs

variable [MailContent γ] {kind : StoreKind} {window : SyncWindow} {cell : ScopeCell γ}
  {es : List (PassEvent γ)} {s : PassState γ}

variable {s' : PassState γ} {e : PassEvent γ}

theorem PassInvariant.took (hs : PassInvariant window es s)
    (h : s.Took kind window e s') : PassInvariant window (es ++ [e]) s' := by
  cases h with
  | taken cell =>
    have hquiet : (PassEvent.taken cell).quiet := ⟨rfl, rfl⟩
    refine ⟨fun h => absurd h (by simp), ?_, ?_, ?_, ?_⟩
    · rw [cursorLeft_quiet window es hquiet]
      exact hs.left
    · rw [covered_quiet es hquiet]
      exact hs.covers
    · rw [cursorLeft_quiet window es hquiet]
      exact hs.fenced
    · rw [appliedChunks_quiet es hquiet.1, List.filterMap_append]
      simpa [PassEvent.found?] using hs.fresh
  | yielded hphase hmoved =>
    -- a scope whose cursor the run left where it was has not been taken
    have hnot : s.holds ≠ true := by
      intro hholds
      exact hmoved ((hs.fenced _ _ hphase).trans (hs.held hholds).symm)
    exact ⟨fun h => absurd h hnot, by simp, by simp, by simp, by simp⟩
  | @claimed fenced n hphase hfenced =>
    have hleft : cursorLeft window (es ++ [.claimed s.cell.state]) = s.cell.state := by
      apply cursorLeft_claimed
      rcases hfenced with rfl | rfl
      · exact .inr (hs.fresh _ hphase)
      · exact .inl (hs.fenced _ _ hphase).symm
    refine ⟨fun _ => hleft.symm, ?_, ?_, by simp, by simp⟩
    · intro left present m h
      cases h
      exact hleft.symm
    · intro left present m h
      cases h
      exact (covered_claimed es _).symm
  | @applied c left present n hphase hholds =>
    have hstate := state_commitChunk kind window s.cell present c
    have hleft : (c.advanceTo.map window.stamp).or left = cursorLeft window (es ++ [.applied c]) := by
      rw [cursorLeft_applied, hs.left _ _ _ hphase]
    refine ⟨fun _ => ?_, ?_, ?_, ?_, ?_⟩
    · rw [cursorLeft_applied, ← hs.held hholds]
      exact hstate
    · intro left' present' m h
      by_cases hfinal : c.isReconcileFinal = true
      · simp [hfinal] at h
      · simp only [hfinal, Bool.false_eq_true, if_false, PassPhase.passing.injEq] at h
        rw [← h.1]
        exact hleft
    · intro left' present' m h
      by_cases hfinal : c.isReconcileFinal = true
      · simp [hfinal] at h
      · have hnot : c.isReconcileFinal = false := by simpa using hfinal
        simp only [hfinal, Bool.false_eq_true, if_false, PassPhase.passing.injEq] at h
        rw [← h.2.1, present_commitChunk kind window s.cell present c hnot, covered_applied, hs.covers _ _ _ hphase]
    · intro left' m h
      by_cases hfinal : c.isReconcileFinal = true <;> simp [hfinal] at h
    · intro m h
      by_cases hfinal : c.isReconcileFinal = true <;> simp [hfinal] at h
  | @fenced c left present n hphase =>
    have hquiet : (PassEvent.stale c).quiet := ⟨rfl, rfl⟩
    refine ⟨?_, by simp, by simp, ?_, by simp⟩
    · rw [cursorLeft_quiet window es hquiet]
      exact hs.held
    · intro left' m h
      cases h
      rw [cursorLeft_quiet window es hquiet]
      exact hs.left _ _ _ hphase
  | ended outcome hquiet =>
    refine ⟨?_, by simp, by simp, by simp, by simp⟩
    rw [cursorLeft_quiet window es hquiet]
    exact hs.held

theorem PassState.Reaches.invariant (h : PassState.Reaches kind window cell es s) : PassInvariant window es s := by
  refine Run.history (fun es m e m' _ hm hstep => hm.took (PassState.took hstep)) h ?_
  exact ⟨by simp [PassState.start], by simp [PassState.start], by simp [PassState.start],
    by simp [PassState.start], fun _ _ => ⟨rfl, rfl⟩⟩

theorem PassState.Reaches.reaches_unique
    (h : PassState.Reaches kind window cell es s) (h' : PassState.Reaches kind window cell es s') :
    s = s' :=
  Run.deterministic (fun _ _ _ _ h h' => Option.some.inj (h.symm.trans h')) h h'

/-- A key is removed by a chunk of a run that lists it, or that ends the pass without having covered
it. -/
def RemovedBy (kind : StoreKind) (window : SyncWindow) (cell : ScopeCell γ)
    (es : List (PassEvent γ)) (k : ProviderKey) : Prop :=
  ∃ before c after s, es = before ++ .applied c :: after ∧
    PassState.Reaches kind window cell before s ∧ s.cell.stored k ∧
      if c.isReconcileFinal then k ∉ covered (before ++ [.applied c]) else k ∈ c.removed

theorem removedBy_snoc {k : ProviderKey} : RemovedBy kind window cell (es ++ [e]) k ↔ RemovedBy kind window cell es k ∨
        ∃ c s, e = .applied c ∧ PassState.Reaches kind window cell es s ∧ s.cell.stored k ∧
          if c.isReconcileFinal then k ∉ covered (es ++ [e]) else k ∈ c.removed := by
  constructor
  · intro ⟨before, c, after, s, hsplit, hreach, hrest⟩
    rcases List.eq_nil_or_concat after with rfl | ⟨after', e', rfl⟩
    · obtain ⟨rfl, he⟩ := List.append_inj' hsplit rfl
      have he : e = .applied c := List.head_eq_of_cons_eq he
      exact .inr ⟨c, s, he, hreach, by rw [he]; exact hrest⟩
    · have hcut : es ++ [e] = (before ++ .applied c :: after') ++ [e'] := by
        rw [hsplit]
        simp
      obtain ⟨rfl, -⟩ := List.append_inj' hcut rfl
      exact .inl ⟨before, c, after', s, rfl, hreach, hrest⟩
  · intro h
    rcases h with ⟨before, c, after, s, rfl, hrest⟩ | ⟨c, s, rfl, hreach, hrest⟩
    · exact ⟨before, c, after ++ [e], s, by simp, hrest⟩
    · exact ⟨es, c, [], s, rfl, hreach, hrest⟩

theorem PassState.Reaches.mem_tombstoned (h : PassState.Reaches kind window cell es s)
    (k : ProviderKey) : k ∈ s.tombstoned ↔ RemovedBy kind window cell es k := by
  refine Run.history (I := fun es s => k ∈ s.tombstoned ↔ RemovedBy kind window cell es k) ?_ h ?_
  · intro es m e m' hreach hm hstep
    rw [removedBy_snoc, ← hm]
    have hother : (∀ c, e ≠ .applied c) → m'.tombstoned = m.tombstoned → (k ∈ m'.tombstoned ↔ k ∈ m.tombstoned ∨
          ∃ c s, e = .applied c ∧ PassState.Reaches kind window cell es s ∧ s.cell.stored k ∧
            if c.isReconcileFinal then k ∉ covered (es ++ [e]) else k ∈ c.removed) := by
      intro hne hsame
      rw [hsame]
      constructor
      · exact .inl
      · intro h
        rcases h with h | ⟨c, _, he, -⟩
        · exact h
        · exact absurd he (hne c)
    cases PassState.took hstep with
    | taken cell => exact hother (by simp) rfl
    | yielded hphase hmoved => exact hother (by simp) rfl
    | claimed hphase hfenced => exact hother (by simp) rfl
    | fenced c hphase => exact hother (by simp) rfl
    | ended outcome hquiet =>
      refine hother (fun c he => ?_) rfl
      rw [he] at hquiet
      exact absurd hquiet.1 (by simp [PassEvent.chunk?])
    | @applied c left present n hphase hholds =>
      have hcovers : present = covered es := (PassState.Reaches.invariant hreach).covers _ _ _ hphase
      rw [List.mem_append, mem_lost_commitChunk]
      refine or_congr_right ⟨fun ⟨hstored, hgone⟩ => ?_, ?_⟩
      · refine ⟨c, m, rfl, hreach, hstored, ?_⟩
        by_cases hfinal : c.isReconcileFinal = true
        · rw [if_pos hfinal] at hgone ⊢
          rwa [covered_applied, if_pos (EmailChunk.mode_of_final hfinal), ← hcovers]
        · rwa [if_neg hfinal] at hgone ⊢
      · intro ⟨c', m'', he, hreach', hstored, hgone⟩
        cases he
        cases PassState.Reaches.reaches_unique hreach hreach'
        refine ⟨hstored, ?_⟩
        by_cases hfinal : c.isReconcileFinal = true
        · rw [if_pos hfinal] at hgone ⊢
          rwa [covered_applied, if_pos (EmailChunk.mode_of_final hfinal), ← hcovers] at hgone
        · rwa [if_neg hfinal] at hgone ⊢
  · constructor
    · intro h
      exact absurd h List.not_mem_nil
    · intro ⟨before, c, after, s, hsplit, _⟩
      exact absurd hsplit.symm (by simp)

theorem PassState.Took.ended_stays {o : PassOutcome}
    (hs : s.phase = .ended o) (h : s.Took kind window e s') : ∃ o', s'.phase = .ended o' := by
  cases h with
  | taken cell => exact ⟨o, hs⟩
  | ended outcome hquiet => exact ⟨outcome, rfl⟩
  | yielded hphase hmoved => exact absurd (hs.symm.trans hphase) (by simp)
  | claimed hphase hfenced => exact absurd (hs.symm.trans hphase) (by simp)
  | applied c hphase hholds => exact absurd (hs.symm.trans hphase) (by simp)
  | fenced c hphase => exact absurd (hs.symm.trans hphase) (by simp)

theorem PassState.Reaches.not_final {earlier later : List (PassEvent γ)} {c d : EmailChunk γ}
    (h : PassState.Reaches kind window cell (earlier ++ .applied d :: later ++ [.applied c]) s) :
    d.isReconcileFinal = false := by
  obtain ⟨m, hbefore, hlast⟩ := Run.append_iff.mp h
  obtain ⟨m₀, hearlier, hrest⟩ := Run.append_iff.mp hbefore
  obtain ⟨m₁, happlied, hlater⟩ := Run.cons_iff.mp hrest
  obtain ⟨m₂, happlied', -⟩ := Run.cons_iff.mp hlast
  by_contra hfinal
  have hfinal : d.isReconcileFinal = true := by simpa using hfinal
  have hended : ∃ o, m₁.phase = .ended o := by
    cases PassState.took happlied with
    | applied c hphase hholds => exact ⟨.finished, if_pos hfinal⟩
    | ended outcome hquiet => exact ⟨outcome, rfl⟩
  have hstill : ∃ o, m.phase = .ended o := Run.preserves (I := fun s => ∃ o, s.phase = .ended o)
      (fun s e s' ⟨_, hs⟩ hstep => PassState.Took.ended_stays hs (PassState.took hstep)) hlater hended
  obtain ⟨o, ho⟩ := hstill
  cases PassState.took happlied' with
  | applied c hphase hholds => exact absurd (ho.symm.trans hphase) (by simp)
  | ended outcome hquiet => exact absurd hquiet.1 (by simp [PassEvent.chunk?])

theorem PassState.Reaches.state_alone (h : PassState.Reaches kind window cell es s)
    (halone : ∀ other, .taken other ∉ es) :
    s.cell.state = (((appliedChunks es).filterMap EmailChunk.advanceTo).getLast?.map window.stamp).or cell.state := by
  revert halone
  refine Run.history (I := fun es s => (∀ other, .taken other ∉ es) → s.cell.state =
    (((appliedChunks es).filterMap EmailChunk.advanceTo).getLast?.map window.stamp).or cell.state) ?_ h ?_
  · intro es m e m' _ hm hstep halone
    have hm := hm fun other hmem => halone other (List.mem_append_left _ hmem)
    have hsame : e.chunk? = none → m'.cell = m.cell → m'.cell.state =
        (((appliedChunks (es ++ [e])).filterMap EmailChunk.advanceTo).getLast?.map window.stamp).or cell.state := by
      intro hquiet hcell
      rw [hcell, hm, appliedChunks_quiet es hquiet]
    cases PassState.took hstep with
    | taken other => exact absurd (List.mem_append_right es List.mem_cons_self) (halone other)
    | yielded hphase hmoved => exact hsame rfl rfl
    | claimed hphase hfenced => exact hsame rfl rfl
    | fenced c hphase => exact hsame rfl rfl
    | ended outcome hquiet => exact hsame hquiet.1 rfl
    | @applied c left present n hphase hholds =>
      have hstate := state_commitChunk kind window m.cell present c
      rw [hm] at hstate
      refine hstate.trans ?_
      rw [appliedChunks_applied, List.filterMap_append]
      cases hc : c.advanceTo with
      | none => simp [hc]
      | some cursor => simp [hc]
  · intro _
    rfl

/-- A run that stops anywhere has left the cursor at the last one it applied.  Deltas that list no
removals lose nothing, and the last chunk of a reconciling pass removes exactly the stored objects no
chunk has covered, beside what the chunks before it listed. -/
theorem streamed_pass_crash_safe (h : PassState.Reaches kind window cell es s) :
    ((∀ other, .taken other ∉ es) → s.cell.state =
      (((appliedChunks es).filterMap EmailChunk.advanceTo).getLast?.map window.stamp).or cell.state) ∧
    (s.holds = true → s.cell.state = cursorLeft window es) ∧
    ((∀ c ∈ appliedChunks es, c.mode = .reconcile ∧ c.advanceTo = none ∧ c.removed = []) → s.tombstoned = []) ∧
    ∀ before c m, es = before ++ [.applied c] → c.isReconcileFinal = true →
      PassState.Reaches kind window cell before m → ∀ k, k ∈ s.tombstoned ↔
        (∃ earlier d later n, before = earlier ++ .applied d :: later ∧
          PassState.Reaches kind window cell earlier n ∧ n.cell.stored k ∧ k ∈ d.removed) ∨
        m.cell.stored k ∧ k ∉ covered es := by
  refine ⟨h.state_alone, h.invariant.held, ?_, ?_⟩
  · intro hheld
    rw [List.eq_nil_iff_forall_not_mem]
    intro k hk
    obtain ⟨before, c, after, n, rfl, -, -, hgone⟩ := (h.mem_tombstoned k).mp hk
    have hc := hheld c (by simp [appliedChunks, PassEvent.chunk?])
    have hnot : c.isReconcileFinal = false := by
      unfold EmailChunk.isReconcileFinal
      rw [hc.2.1]
      simp
    rw [hnot, hc.2.2] at hgone
    simp at hgone
  · intro before c m hsplit hfinal hm k
    subst hsplit
    rw [h.mem_tombstoned k, removedBy_snoc]
    apply or_congr
    · constructor
      · intro ⟨earlier, d, later, n, hsplit, hn, hstored, hgone⟩
        subst hsplit
        rw [h.not_final] at hgone
        exact ⟨earlier, d, later, n, rfl, hn, hstored, by simpa using hgone⟩
      · intro ⟨earlier, d, later, n, hsplit, hn, hstored, hgone⟩
        subst hsplit
        refine ⟨earlier, d, later, n, rfl, hn, hstored, ?_⟩
        rw [h.not_final]
        simpa using hgone
    · constructor
      · intro ⟨c', n, he, hn, hstored, hgone⟩
        cases he
        cases hm.reaches_unique hn
        rw [if_pos hfinal] at hgone
        exact ⟨hstored, hgone⟩
      · intro ⟨hstored, hgone⟩
        refine ⟨c, m, rfl, hm, hstored, ?_⟩
        rwa [if_pos hfinal]

end Runs

namespace Sample

/-- A scope that holds two messages. -/
def stocked : ScopeCell Unit :=
  streamed .durable .full .new
    [⟨.additive, [greeting, { greeting with key := "m2" }], [], [], [], none, some "c1"⟩]

def lastChunk : EmailChunk Unit := ⟨.reconcile, [], [], [], [], none, some "c2"⟩

def coveringChunk : EmailChunk Unit := ⟨.reconcile, [], [], [], ["m1"], none, none⟩

def arrivingChunk : EmailChunk Unit :=
  ⟨.reconcile, [{ greeting with key := "m3" }], [], [], ["m3"], none, none⟩

/-- The message is listed as removed, and covered. -/
def removedChunk : EmailChunk Unit := ⟨.reconcile, [], [], ["m1"], ["m1"], none, none⟩

def stoppedPass : List (PassEvent Unit) :=
  [.claimed (some "c1"), .applied coveringChunk, .applied arrivingChunk]

def wholePass : List (PassEvent Unit) := stoppedPass ++ [.applied lastChunk]

def removingPass : List (PassEvent Unit) :=
  [.claimed (some "c1"), .applied removedChunk, .applied lastChunk]

def passed (es : List (PassEvent Unit)) : Option (PassState Unit) :=
  es.foldlM (fun s e => s.take .durable .full e) (PassState.start stocked)

end Sample

open Sample in
/-- Stopped before its last chunk the pass has removed nothing and moved no cursor; the last
chunk removes the message no chunk covered, and no other. -/
theorem streamed_pass_crash_safe_stopped : ∃ m s, PassState.Reaches .durable .full stocked stoppedPass m ∧
      PassState.Reaches .durable .full stocked wholePass s ∧
      m.tombstoned = [] ∧ m.cell.state = some "c1" ∧ s.cell.state = some "c2" ∧
      "m2" ∈ s.tombstoned ∧ "m1" ∉ s.tombstoned ∧ "m3" ∉ s.tombstoned := by
  have hstops : (passed stoppedPass).isSome := by decide
  obtain ⟨m, hm⟩ := Option.isSome_iff_exists.mp hstops
  have hends : (passed wholePass).isSome := by decide
  obtain ⟨s, hs⟩ := Option.isSome_iff_exists.mp hends
  have hstored : ((passed stoppedPass).map fun m => (m.cell.objects.get? "m2").isSome) = some true := by decide
  rw [hm] at hstored
  have hstopped := streamed_pass_crash_safe (Run.of_foldlM hm)
  have hsafe := streamed_pass_crash_safe (Run.of_foldlM hs)
  have hgone := hsafe.2.2.2 stoppedPass lastChunk m rfl rfl (Run.of_foldlM hm)
  have hnone : ∀ k ∈ ["m1", "m3"], k ∉ s.tombstoned := by
    intro k hk hin
    rcases (hgone k).mp hin with ⟨earlier, d, later, -, hsplit, -, -, hkey⟩ | ⟨-, huncovered⟩
    · have hremoved : ∀ c ∈ appliedChunks stoppedPass, c.removed = [] := by decide
      have hd : d ∈ appliedChunks stoppedPass := by
        rw [hsplit]
        simp [appliedChunks, PassEvent.chunk?]
      rw [hremoved d hd] at hkey
      simp at hkey
    · have hcovered : ∀ k ∈ ["m1", "m3"], k ∈ covered wholePass := by decide
      exact huncovered (hcovered k hk)
  refine ⟨m, s, Run.of_foldlM hm, Run.of_foldlM hs, hstopped.2.2.1 (by decide),
    hstopped.1 (by simp [stoppedPass]), hsafe.1 (by simp [wholePass, stoppedPass]),
    (hgone "m2").mpr (.inr ⟨Option.some.inj hstored, by decide⟩), hnone "m1" (by simp), hnone "m3" (by simp)⟩

open Sample in
/-- A completed pass has removed a stored object that a chunk's present set names. -/
theorem removingPass_tombstones_covered : ∃ s, PassState.Reaches .durable .full stocked removingPass s ∧
      (∀ c ∈ appliedChunks removingPass, c.mode = .reconcile) ∧ lastChunk.isReconcileFinal = true ∧
      stocked.stored "m1" ∧ (∃ c ∈ appliedChunks removingPass, "m1" ∈ c.present) ∧
      "m1" ∈ s.tombstoned := by
  have hends : ((passed removingPass).map fun s => decide ("m1" ∈ s.tombstoned)) = some true := by decide
  obtain ⟨s, hs, hremoved⟩ := Option.map_eq_some_iff.mp hends
  refine ⟨s, Run.of_foldlM hs, by decide, rfl, ?_, ⟨removedChunk, by simp [appliedChunks,
    removingPass, PassEvent.chunk?], by decide⟩, of_decide_eq_true hremoved⟩
  unfold ScopeCell.stored
  decide

end Mail
end SyncEngine
