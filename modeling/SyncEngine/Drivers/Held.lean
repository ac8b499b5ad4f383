import SyncEngine.Drivers.Scopes

/-!
# Leases a driver leaves held

A claim that is granted holds its scope until the store takes the lease back, forgets the scope, or answers a call
under the lease that it is stale.  The two sync drivers hold nothing when they return.  The other two return on some
errors without giving the lease back: the horizon pass where it cannot read or decode an event, and the forgetting
of scopes where the store fails to forget one.
-/

namespace SyncEngine
namespace Drivers

open Dialogue

open Dialogue (Runs After after_bind_except after_lift_bind after_request)

abbrev Event (I : Interface) := Exchange (Ask I) Ask.Answer

variable {I : Interface}

/-! ## What is held after a run -/

/-- The lease an exchange hands out. -/
def granted : Event I → Option SyncLease
  | ⟨.claimSyncScope _ _ _, .ok claim⟩ => some claim.lease
  | _ => none

/-- The lease that holds its scope no longer after an exchange. -/
def ended : Event I → Option SyncLease
  | ⟨.releaseSyncScope lease, .ok _⟩ => some lease
  | ⟨.forgetScope lease, .ok _⟩ => some lease
  | ⟨.forgetScope lease, .error .staleLease⟩ => some lease
  | ⟨.applySyncUpdate lease _, .error .staleLease⟩ => some lease
  | ⟨.applyMaintenance lease _, .error .staleLease⟩ => some lease
  | ⟨.setExpansionWindow lease _, .error .staleLease⟩ => some lease
  | _ => none

def holdNext (held : List SyncLease) (x : Event I) : List SyncLease :=
  match ended x with
  | some lease => held.filter fun l => l ≠ lease
  | none => (granted x).toList ++ held

/-- The leases claimed in a run that still hold their scope after it. -/
def held (t : List (Event I)) : List SyncLease := t.foldl holdNext []

def releases : Event I → Bool
  | ⟨.releaseSyncScope _, .error _⟩ => false
  | _ => true

/-! ## The answers a lease is not given back on -/

/-- The reads and payloads that end a horizon pass under its lease. -/
def unreadable {ε : Type} (expander : Expander I.Payload ε) : Event I.calendar → Bool
  | ⟨.read (.objectKeys _), .error _⟩ => true
  | ⟨.read (.objectPayload _ _), .error _⟩ => true
  | ⟨.read (.objectPayload _ _), .ok (some payload)⟩ => !(expander.decode payload).isOk
  | _ => false

/-- A scope the store failed to forget, its lease being good. -/
def unforgotten : Event I → Bool
  | ⟨.forgetScope _, .error e⟩ => e ≠ .staleLease
  | _ => false

/-! ## Watching a driver -/

/-- What is held so far, whether an answer was one that loses a lease, and whether every release
succeeded. -/
structure Watch where
  held : List SyncLease
  lost : Bool
  lawful : Bool

namespace Watch

variable (loses : Event I → Bool)

def start : Watch := ⟨[], false, true⟩

def step (s : Watch) (x : Event I) : Watch :=
  ⟨holdNext s.held x, s.lost || loses x, s.lawful && releases x⟩

theorem foldl_step (t : List (Event I)) (s : Watch) : t.foldl (step loses) s =
      ⟨t.foldl holdNext s.held, s.lost || t.any loses, s.lawful && t.all releases⟩ := by
  induction t generalizing s with
  | nil => simp
  | cons x t ih =>
    rw [List.foldl_cons, ih]
    simp [step, Bool.or_assoc, Bool.and_assoc]

/-- Nothing is held, and nothing was answered that loses a lease. -/
def Clear (s : Watch) : Prop := s.lawful = true → s.held = [] ∧ s.lost = false

/-- One lease is held, and nothing was answered that loses it. -/
def Under (lease : SyncLease) (s : Watch) : Prop :=
  s.lawful = true → s.held = [lease] ∧ s.lost = false

/-- At most that lease is held, and nothing was answered that loses it. -/
def Within (lease : SyncLease) (s : Watch) : Prop :=
  s.lawful = true → (∀ l ∈ s.held, l = lease) ∧ s.lost = false

/-- Nothing is held exactly where nothing was answered that loses a lease. -/
def Told (s : Watch) : Prop := s.lawful = true → (s.held = [] ↔ s.lost = false)

theorem clear_start : Clear start := fun _ => ⟨rfl, rfl⟩

variable {loses} {s : Watch} {lease : SyncLease} {x : Event I}

theorem Clear.told (h : s.Clear) : s.Told := by
  intro hl
  obtain ⟨hh, hb⟩ := h hl
  simp [hh, hb]

theorem Clear.quiet (h : s.Clear) (hg : granted x = none) (he : ended x = none)
    (hx : loses x = false) : (s.step loses x).Clear := by
  intro hl
  obtain ⟨hh, hb⟩ := h (Bool.and_eq_true_iff.mp hl).1
  simp [step, holdNext, hg, he, hh, hb, hx]

theorem Clear.claim (h : s.Clear) (hg : granted x = some lease) (he : ended x = none)
    (hx : loses x = false) : (s.step loses x).Under lease := by
  intro hl
  obtain ⟨hh, hb⟩ := h (Bool.and_eq_true_iff.mp hl).1
  simp [step, holdNext, hg, he, hh, hb, hx]

theorem Under.quiet (h : s.Under lease) (hg : granted x = none) (he : ended x = none)
    (hx : loses x = false) : (s.step loses x).Under lease := by
  intro hl
  obtain ⟨hh, hb⟩ := h (Bool.and_eq_true_iff.mp hl).1
  simp [step, holdNext, hg, he, hh, hb, hx]

theorem Under.end (h : s.Under lease) (he : ended x = some lease) (hx : loses x = false) : (s.step loses x).Clear := by
  intro hl
  obtain ⟨hh, hb⟩ := h (Bool.and_eq_true_iff.mp hl).1
  simp [step, holdNext, he, hh, hb, hx]

theorem Under.lose (h : s.Under lease) (hg : granted x = none) (he : ended x = none)
    (hx : loses x = true) : (s.step loses x).Told := by
  intro hl
  obtain ⟨hh, -⟩ := h (Bool.and_eq_true_iff.mp hl).1
  simp [step, holdNext, hg, he, hh, hx]

theorem Under.within (h : s.Under lease) : s.Within lease := by
  intro hl
  obtain ⟨hh, hb⟩ := h hl
  simp [hh, hb]

theorem Clear.within (h : s.Clear) : s.Within lease := by
  intro hl
  obtain ⟨hh, hb⟩ := h hl
  simp [hh, hb]

theorem Under.refused (h : s.Under lease) (hg : granted x = none) (he : ∀ l ∈ ended x, l = lease)
    (hx : loses x = false) : (s.step loses x).Within lease := by
  cases hended : ended x with
  | none => exact (h.quiet hg hended hx).within
  | some l =>
    have hl : l = lease := he l hended
    exact (h.end (hl ▸ hended) hx).within

theorem Within.release (h : s.Within lease) (a : Result Unit) (hx : loses ⟨.releaseSyncScope lease, a⟩ = false) :
    (s.step loses ⟨.releaseSyncScope lease, a⟩).Clear := by
  intro hl
  obtain ⟨hlaw, hok⟩ := Bool.and_eq_true_iff.mp hl
  obtain ⟨hh, hb⟩ := h hlaw
  cases a with
  | error e => simp [releases] at hok
  | ok u =>
    refine ⟨?_, by simp [step, hb, hx]⟩
    show s.held.filter (fun l => l ≠ lease) = []
    exact List.filter_eq_nil_iff.mpr fun l hl => by simp [hh l hl]

end Watch

/-! ## The parts of a driver -/

section Parts

variable {loses : Event I → Bool} {s : Watch} {lease : SyncLease} {α β : Type}

variable {f : α → Driver I β} {P : Watch → Except SyncError β → Prop}

theorem after_answer_bind {call : Talk I α} : After (Watch.step loses) s (answer call >>= f).run P ↔
      After (Watch.step loses) s call fun s a => After (Watch.step loses) s (f a).run P :=
  after_lift_bind

theorem after_orFail_bind {call : Talk I (Result α)} : After (Watch.step loses) s (orFail call >>= f).run P ↔
      After (Watch.step loses) s call fun s r =>
        match r with
        | .error e => P s (.error (.store e))
        | .ok a => After (Watch.step loses) s (f a).run P := by
  rw [after_bind_except]
  show After _ s (call >>= fun r => pure (r.mapError SyncError.store)) _ ↔ _
  rw [after_bind]
  constructor
  · intro h
    refine h.mono fun s r h => ?_
    cases r with
    | error e =>
      rw [after_pure] at h
      exact h
    | ok a =>
      rw [after_pure] at h
      exact h
  · intro h
    refine h.mono fun s r h => ?_
    cases r with
    | error e =>
      rw [after_pure]
      exact h
    | ok a =>
      rw [after_pure]
      exact h

theorem after_reading {program : Reading I α} {P : Watch → Except SyncError α → Prop}
    (hquiet : ∀ r a, loses ⟨.read r, a⟩ = false) (hs : ∀ r, P s r) :
    After (Watch.step loses) s (reading program) P := by
  refine after_of_only (only_within Ask.read program) ?_ hs
  intro q a hq
  obtain ⟨r, rfl⟩ := hq
  show Watch.mk s.held (s.lost || loses ⟨.read r, a⟩) (s.lawful && true) = s
  rw [hquiet, Bool.or_false, Bool.and_true]

theorem after_releaseAndFail {e : SyncError} {P : Watch → Except SyncError α → Prop}
    (h : s.Within lease) (hquiet : ∀ a, loses ⟨.releaseSyncScope lease, a⟩ = false)
    (hP : ∀ s : Watch, s.Clear → P s (.error e)) :
    After (Watch.step loses) s (releaseAndFail lease e).run P := by
  unfold releaseAndFail
  rw [after_answer_bind]
  refine after_request.mpr fun a => ?_
  exact after_throw.mpr (hP _ (h.release a (hquiet a)))

theorem after_claim_bind {account : AccountId} {scope : SyncScope} {req : LeaseRequest}
    {f : SyncClaim → Driver I β} (h : s.Clear)
    (hquiet : ∀ a, loses ⟨.claimSyncScope account scope req, a⟩ = false)
    (hfail : ∀ (s : Watch) e, s.Clear → P s (.error e))
    (hP : ∀ (s : Watch) (claim : SyncClaim), s.Under claim.lease → After (Watch.step loses) s (f claim).run P) :
    After (Watch.step loses) s (orFail (claimSyncScope account scope req) >>= f).run P := by
  rw [after_orFail_bind]
  refine after_request.mpr fun a => ?_
  cases a with
  | error e => exact hfail _ _ (h.quiet rfl rfl (hquiet _))
  | ok claim => exact hP _ claim (h.claim rfl rfl (hquiet _))

theorem after_release_bind {f : Unit → Driver I β}
    (h : s.Within lease) (hquiet : ∀ a, loses ⟨.releaseSyncScope lease, a⟩ = false)
    (hfail : ∀ (s : Watch) e, s.Clear → P s (.error e))
    (hP : ∀ s : Watch, s.Clear → After (Watch.step loses) s (f ()).run P) :
    After (Watch.step loses) s (orFail (releaseSyncScope lease) >>= f).run P := by
  rw [after_orFail_bind]
  refine after_request.mpr fun a => ?_
  have hclear := h.release a (hquiet a)
  cases a with
  | error e => exact hfail _ _ hclear
  | ok u => exact hP _ hclear

end Parts

/-! ## One fetch -/

def losesNothing : Event I → Bool := fun _ => false

section RunScope

variable {μ η : Type} {syncer : ScopeSyncer (I.fetching μ η)} {account : AccountId}
  {req : LeaseRequest} {again : Option (Driver (I.fetching μ η) (ScopeRun μ η))}

abbrev Ends {I : Interface} {α : Type} (driver : Driver I α) : Prop :=
  ∀ s : Watch, s.Clear → After (Watch.step losesNothing) s driver.run fun s _ => s.Clear

theorem ends_commit {claim : SyncClaim} {sync : ScopeSync I} {extra : μ} {s : Watch}
    (hs : s.Under claim.lease) (hagain : ∀ d ∈ again, Ends d) :
    After (Watch.step losesNothing) s (syncer.commit account req claim sync extra again).run fun s _ => s.Clear := by
  unfold ScopeSyncer.commit
  rw [after_answer_bind]
  refine after_reading (fun _ _ => rfl) fun r => ?_
  cases r with
  | error e => exact after_releaseAndFail hs.within (fun _ => rfl) fun _ h => h
  | ok observations =>
    rw [after_answer_bind]
    refine after_request.mpr fun a => ?_
    cases a with
    | ok applied =>
      exact after_release_bind (hs.quiet rfl rfl rfl).within (fun _ => rfl) (fun _ _ h => h)
        fun s h => after_pure_except.mpr h
    | error e =>
      cases e with
      | staleLease =>
        cases again with
        | none => exact after_releaseAndFail (hs.end rfl rfl).within (fun _ => rfl) fun _ h => h
        | some d => exact hagain d rfl _ (hs.end rfl rfl)
      | _ =>
        -- any other refusal leaves the lease where it was
        exact after_releaseAndFail (hs.quiet rfl rfl rfl).within (fun _ => rfl) fun _ h => h

theorem ends_attempt (hagain : ∀ d ∈ again, Ends d) : Ends (syncer.attempt account req again) := by
  intro s hs
  unfold ScopeSyncer.attempt
  refine after_claim_bind hs (fun _ => rfl) (fun _ _ h => h) fun s claim hs => ?_
  rw [after_answer_bind]
  refine after_request.mpr fun a => ?_
  match a with
  | .error e => exact after_releaseAndFail (hs.quiet rfl rfl rfl).within (fun _ => rfl) fun _ h => h
  | .ok (.halt reason) =>
    exact after_release_bind (hs.quiet rfl rfl rfl).within (fun _ => rfl) (fun _ _ h => h)
      fun s h => after_pure_except.mpr h
  | .ok (.proceed sync extra) => exact ends_commit (hs.quiet rfl rfl rfl) hagain

theorem ends_attempts (reclaims : Nat) : Ends (syncer.attempts account req reclaims) := by
  induction reclaims with
  | zero => exact ends_attempt fun d hd => nomatch hd
  | succ reclaims ih => exact ends_attempt fun d hd => Option.some.inj hd ▸ ih

end RunScope

/-! ## A stream -/

section Stream

open Mail (EmailChunk MailContent)

variable {γ : Type} [MailContent γ] {pass : FolderPass I γ} {account : AccountId}
  {lease : SyncLease} {s : Watch}

def GoesOn (lease : SyncLease) (s : Watch) : Except SyncError (Progress ⊕ Ended) → Prop
  | .ok (.inl _) => s.Under lease
  | _ => s.Clear

omit [MailContent γ] in
theorem after_keepAlive {ttl n : Nat} {P : Watch → Unit → Prop} (hs : s.Under lease)
    (hP : ∀ s : Watch, s.Under lease → P s ()) :
    After (Watch.step losesNothing) s (keepAlive (I := I) (γ := γ) lease ttl n) P := by
  induction n generalizing s with
  | zero => exact after_pure.mpr (hP s hs)
  | succ n ih =>
    unfold keepAlive
    rw [after_bind]
    exact after_request.mpr fun a => ih (hs.quiet rfl rfl rfl)

variable (reclaimable : Bool)

theorem goesOn_commitChunk (progress : Progress) (chunk : EmailChunk γ) (hs : s.Under lease) :
    After (Watch.step losesNothing) s (pass.commitChunk account reclaimable lease progress chunk).run (GoesOn lease) := by
  unfold FolderPass.commitChunk
  dsimp only
  rw [after_answer_bind]
  refine after_reading (fun _ _ => rfl) fun r => ?_
  cases r with
  | error e => exact after_releaseAndFail hs.within (fun _ => rfl) fun _ h => h
  | ok observations =>
    show After _ _ (ExceptT.run (answer _ >>= _)) _
    rw [after_answer_bind]
    refine after_reading (fun _ _ => rfl) fun r => ?_
    cases r with
    | error e => exact after_releaseAndFail hs.within (fun _ => rfl) fun _ h => h
    | ok reconcile =>
      show After _ _ (ExceptT.run (answer _ >>= _)) _
      rw [after_answer_bind]
      refine after_request.mpr fun a => ?_
      cases a with
      | ok applied =>
        dsimp only
        by_cases hfinal : chunk.isReconcileFinal = true
        · rw [if_pos hfinal]
          exact after_release_bind (hs.quiet rfl rfl rfl).within (fun _ => rfl) (fun _ _ h => h)
            fun s h => after_pure_except.mpr h
        · rw [if_neg hfinal]
          exact after_pure_except.mpr (hs.quiet rfl rfl rfl)
      | error e =>
        cases e with
        | staleLease =>
          cases reclaimable with
          | true => exact after_pure_except.mpr (hs.end rfl rfl)
          | false => exact after_releaseAndFail (hs.end rfl rfl).within (fun _ => rfl) fun _ h => h
        | _ => exact after_releaseAndFail (hs.quiet rfl rfl rfl).within (fun _ => rfl) fun _ h => h

theorem clear_drain (ending : Nat) (items : List (Awaited (Except ProviderError (EmailChunk γ)))) (progress : Progress)
    (hs : s.Under lease) :
    After (Watch.step losesNothing) s
      (pass.drain account reclaimable lease ending items progress).run fun s _ => s.Clear := by
  induction items generalizing s progress with
  | nil =>
    unfold FolderPass.drain
    rw [after_answer_bind]
    refine after_keepAlive hs fun s hs => ?_
    exact after_release_bind hs.within (fun _ => rfl) (fun _ _ h => h) fun s h => after_pure_except.mpr h
  | cons next rest ih =>
    unfold FolderPass.drain
    rw [after_answer_bind]
    refine after_keepAlive hs fun s hs => ?_
    cases next.item with
    | error e => exact after_releaseAndFail hs.within (fun _ => rfl) fun _ h => h
    | ok chunk =>
      dsimp only
      rw [after_bind_except]
      refine (goesOn_commitChunk reclaimable progress chunk hs).mono fun s r h => ?_
      match r with
      | .error e => exact h
      | .ok (.inl progress) => exact ih progress h
      | .ok (.inr ended) => exact after_pure_except.mpr h

variable {claim : SyncClaim}

theorem clear_stream (hs : s.Under claim.lease) :
    After (Watch.step losesNothing) s (pass.stream account reclaimable claim).run fun s _ => s.Clear := by
  unfold FolderPass.stream
  dsimp only
  rw [after_answer_bind]
  exact after_request.mpr fun streamed => clear_drain _ _ _ _ (hs.quiet rfl rfl rfl)

variable {fenced : Option (Option SyncState × SyncApplied)}
  {P : Watch → Except SyncError (Option SyncApplied) → Prop}

omit [MailContent γ] in
theorem after_afterFence_ok (hs : s.Under claim.lease) (hfail : ∀ (s : Watch) e, s.Clear → P s (.error e))
    (hend : ∀ (s : Watch) applied, s.Clear → P s (.ok (some applied))) (hP : P s (.ok none)) :
    After (Watch.step losesNothing) s (FolderPass.afterFence (I := I) (γ := γ) fenced (.ok claim)).run P := by
  match fenced with
  | none => exact after_pure_except.mpr hP
  | some (left, applied) =>
    unfold FolderPass.afterFence
    dsimp only
    by_cases h : claim.state ≠ left
    · rw [if_pos h]
      exact after_release_bind hs.within (fun _ => rfl) hfail fun s h => after_pure_except.mpr (hend s _ h)
    · rw [if_neg h]
      exact after_pure_except.mpr hP

omit [MailContent γ] in
theorem after_afterFence_error {e : StoreError} (hP : ∀ r, P s (.ok r)) : After (Watch.step losesNothing) s
      (FolderPass.afterFence (I := I) (γ := γ) fenced (.error e)).run P := by
  match fenced, e with
  | none, _ => exact after_pure_except.mpr (hP _)
  | some _, .scopeHeld => exact after_pure_except.mpr (hP _)
  | some _, .staleLease | some _, .conflict | some _, .notRunnable | some _, .backend _
  | some _, .shuttingDown => exact after_pure_except.mpr (hP _)

theorem ends_claimAndStream {again : Option (Option SyncState × SyncApplied → Driver (I.mail γ) SyncApplied)}
    (hagain : ∀ d ∈ again, ∀ f, Ends (d f)) : Ends (pass.claimAndStream account fenced again) := by
  intro s hs
  unfold FolderPass.claimAndStream
  rw [after_answer_bind]
  refine after_request.mpr fun claimed => ?_
  rw [after_bind_except]
  cases claimed with
  | error e =>
    refine after_afterFence_error fun r => ?_
    cases r with
    | some applied => exact after_pure_except.mpr (hs.quiet rfl rfl rfl)
    | none => exact after_throw.mpr (hs.quiet rfl rfl rfl)
  | ok claim =>
    refine after_afterFence_ok (hs.claim rfl rfl rfl) (fun _ _ h => h) (fun s applied h => after_pure_except.mpr h) ?_
    show After _ _ (ExceptT.run (pass.stream account again.isSome claim >>= _)) _
    rw [after_bind_except]
    refine (clear_stream again.isSome (hs.claim rfl rfl rfl)).mono fun s r hs => ?_
    match r, again with
    | .error e, _ => exact hs
    | .ok (.finished applied), _ => exact after_pure_except.mpr hs
    | .ok (.fenced left applied), some d => exact hagain d rfl (left, applied) s hs
    | .ok (.fenced left applied), none => exact after_pure_except.mpr hs

theorem ends_restart (reclaims : Nat) (fenced : Option (Option SyncState × SyncApplied)) :
    Ends (pass.restart account reclaims fenced) := by
  induction reclaims generalizing fenced with
  | zero => exact ends_claimAndStream fun d hd => nomatch hd
  | succ reclaims ih => exact ends_claimAndStream fun d hd f => Option.some.inj hd ▸ ih (some f)

end Stream

end Drivers
end SyncEngine
