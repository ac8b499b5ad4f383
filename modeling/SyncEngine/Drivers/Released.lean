import SyncEngine.Drivers.Held

/-!
# Where a lease is not given back

The horizon pass and the forgetting of scopes return early on some errors.  Each is followed scope by
scope: a scope that was dealt with leaves nothing held, and the first one that is not ends the run.
-/

namespace SyncEngine
namespace Drivers

open Dialogue

open Watch

open Dialogue (Runs After after_bind_except after_request)

variable {I : Interface}

/-- A driver that goes on holds nothing, and one that fails holds a lease exactly where it was answered
what loses one. -/
def Spent {α : Type} (s : Watch) : Except SyncError α → Prop
  | .ok _ => s.Clear
  | .error _ => s.Told

theorem Spent.told {α : Type} {s : Watch} {r : Except SyncError α} (h : Spent s r) : s.Told := by
  cases r with
  | ok a => exact Clear.told h
  | error e => exact h

/-! ## Moving the horizon -/

section Horizon

variable {ε : Type} {expander : Expander I.Payload ε} {window : ExpansionWindow}
  {account : AccountId} {req : LeaseRequest} {s : Watch}

variable (scope : SyncScope)

theorem spent_expandAll {lease : SyncLease} (keys : List ProviderKey)
    (rows : DerivedWrite × List UnexpandableEvent) (hs : s.Under lease) :
    After (step (unreadable expander)) s (expander.expandAll window scope keys rows).run fun s r => match r with
        | .ok _ => s.Under lease
        | .error _ => s.Told := by
  induction keys generalizing s rows with
  | nil => exact after_pure_except.mpr hs
  | cons key keys ih =>
    unfold Expander.expandAll
    rw [after_orFail_bind]
    refine after_request.mpr fun a => ?_
    match a with
    | .error e => exact hs.lose rfl rfl rfl
    | .ok none => exact ih rows (hs.quiet rfl rfl rfl)
    | .ok (some payload) =>
      cases hd : expander.decode payload with
      | error text =>
        have hlost : unreadable expander ⟨.read (.objectPayload scope key), .ok (some payload)⟩ = true := by
          simp [unreadable, hd, Except.isOk, Except.toBool]
        simp only [hd]
        exact after_throw.mpr (hs.lose rfl rfl hlost)
      | ok event =>
        have hread : unreadable expander ⟨.read (.objectPayload scope key), .ok (some payload)⟩ = false := by
          simp [unreadable, hd, Except.isOk, Except.toBool]
        simp only [hd]
        exact ih _ (hs.quiet rfl rfl hread)

theorem spent_expandScope (report : HorizonExpansion) (hs : s.Clear) : After (step (unreadable expander)) s
      (expander.expandScope window account req scope report).run Spent := by
  unfold Expander.expandScope
  refine after_claim_bind hs (fun _ => rfl) (fun _ _ h => h.told) fun s claim hs => ?_
  rw [after_orFail_bind]
  refine after_request.mpr fun a => ?_
  cases a with
  | error e => exact hs.lose rfl rfl rfl
  | ok keys =>
    show After _ _ (ExceptT.run (expander.expandAll window scope keys _ >>= _)) _
    rw [after_bind_except]
    refine (spent_expandAll scope keys _ (hs.quiet rfl rfl rfl)).mono fun s r hs => ?_
    match r with
    | .error e => exact hs
    | .ok (derived, unexpandable) =>
      show After _ _ (ExceptT.run (answer _ >>= _)) _
      rw [after_answer_bind]
      refine after_request.mpr fun a => ?_
      cases a with
      | error e =>
        refine after_releaseAndFail (hs.refused rfl ?_ rfl) (fun _ => rfl) fun _ h => h.told
        cases e <;> simp [ended]
      | ok u =>
        show After _ _ (ExceptT.run (answer _ >>= _)) _
        rw [after_answer_bind]
        refine after_request.mpr fun a => ?_
        have hs : (s.step (unreadable expander) ⟨.applyMaintenance claim.lease derived, .ok u⟩).Under
            claim.lease := hs.quiet rfl rfl rfl
        cases a with
        | error e =>
          refine after_releaseAndFail (hs.refused rfl ?_ rfl) (fun _ => rfl) fun _ h => h.told
          cases e <;> simp [ended]
        | ok u =>
          exact after_release_bind (hs.quiet rfl rfl rfl).within (fun _ => rfl) (fun _ _ h => h.told)
            fun s h => after_pure_except.mpr h

theorem spent_expandScopes (scopes : List SyncScope) (report : HorizonExpansion) (hs : s.Clear) :
    After (step (unreadable expander)) s (expander.expandScopes window account req scopes report).run Spent := by
  induction scopes generalizing s report with
  | nil => exact after_pure_except.mpr hs
  | cons scope scopes ih =>
    unfold Expander.expandScopes
    rw [after_orFail_bind]
    refine after_request.mpr fun a => ?_
    cases a with
    | error e => exact (hs.quiet rfl rfl rfl).told
    | ok expanded =>
      dsimp only
      by_cases h : expanded = some window
      · rw [if_pos h]
        exact ih _ (hs.quiet rfl rfl rfl)
      · rw [if_neg h, after_bind_except]
        refine (spent_expandScope scope report (hs.quiet rfl rfl rfl)).mono fun s r hs => ?_
        cases r with
        | error e => exact hs
        | ok report => exact ih report hs

theorem spent_expandCalendarHorizon (hs : s.Clear) : After (step (unreadable expander)) s
      (expandCalendarHorizon expander account req window).run Spent := by
  unfold expandCalendarHorizon
  rw [after_orFail_bind]
  refine after_request.mpr fun a => ?_
  cases a with
  | error e => exact (hs.quiet rfl rfl rfl).told
  | ok scopes => exact spent_expandScopes _ _ (hs.quiet rfl rfl rfl)

end Horizon

/-! ## Forgetting -/

section Forget

variable {account : AccountId} {req : LeaseRequest} {s : Watch}

variable (scope : SyncScope)

theorem clear_alreadyEmpty (hs : s.Clear) :
    After (step unforgotten) s (alreadyEmpty (I := I) account scope).run fun s _ => s.Clear := by
  unfold alreadyEmpty
  rw [after_orFail_bind]
  refine after_request.mpr fun a => ?_
  have hs : (s.step (unforgotten (I := I)) ⟨.read (.loadSyncState account scope), a⟩).Clear := hs.quiet rfl rfl rfl
  cases a with
  | error e => exact hs
  | ok state =>
    dsimp only
    by_cases h : state.isSome = true
    · rw [if_pos h]
      exact after_pure_except.mpr hs
    · rw [if_neg h, after_orFail_bind]
      refine after_request.mpr fun a => ?_
      have hs : (step (unforgotten (I := I)) _ ⟨.read (.objectKeys scope), a⟩).Clear := hs.quiet rfl rfl rfl
      cases a with
      | error e => exact hs
      | ok keys => exact after_pure_except.mpr hs

theorem spent_forgetOne (forgotten : Nat) (hs : s.Clear) :
    After (step unforgotten) s (forgetOne (I := I) account req scope forgotten).run Spent := by
  unfold forgetOne
  rw [after_bind_except]
  refine (clear_alreadyEmpty scope hs).mono fun s r hs => ?_
  cases r with
  | error e => exact hs.told
  | ok empty =>
    dsimp only
    by_cases h : empty = true
    · rw [if_pos h]
      exact after_pure_except.mpr hs
    · rw [if_neg h, after_answer_bind]
      refine after_request.mpr fun a => ?_
      cases a with
      | error e =>
        have hs : (s.step (unforgotten (I := I)) ⟨.claimSyncScope account scope req, .error e⟩).Clear :=
          hs.quiet rfl rfl rfl
        cases e with
        | scopeHeld => exact after_pure_except.mpr hs
        | _ => exact after_throw.mpr hs.told
      | ok claim =>
        show After _ _ (ExceptT.run (orFail _ >>= _)) _
        rw [after_orFail_bind]
        refine after_request.mpr fun a => ?_
        have hs : (s.step (unforgotten (I := I)) ⟨.claimSyncScope account scope req, .ok claim⟩).Under
            claim.lease := hs.claim rfl rfl rfl
        cases a with
        | ok u => exact after_pure_except.mpr (hs.end rfl rfl)
        | error e =>
          cases e with
          | staleLease => exact (hs.end rfl rfl).told
          | _ => exact hs.lose rfl rfl rfl

theorem spent_forgetEach (scopes : List SyncScope) (forgotten : Nat) (hs : s.Clear) :
    After (step unforgotten) s (forgetEach (I := I) account req scopes forgotten).run Spent := by
  induction scopes generalizing s forgotten with
  | nil => exact after_pure_except.mpr hs
  | cons scope scopes ih =>
    unfold forgetEach
    rw [after_bind_except]
    refine (spent_forgetOne scope forgotten hs).mono fun s r hs => ?_
    cases r with
    | error e => exact hs
    | ok forgotten => exact ih forgotten hs

end Forget

/-! ## All four -/

def Released (t : List (Event I)) : Prop := ∀ x ∈ t, releases x = true

instance (t : List (Event I)) : Decidable (Released t) :=
  inferInstanceAs (Decidable (∀ x ∈ t, releases x = true))

section Watched

variable {α : Type} {loses : Event I → Bool} {driver : Driver I α}

variable {t : List (Event I)} {r : Except SyncError α}

theorem held_iff_of_told (h : After (step loses) start driver.run fun s _ => s.Told) (hr : Runs driver.run t r)
    (hreleases : Released t) : held t = [] ↔ ∀ x ∈ t, loses x = false := by
  have htold := h t r hr
  rw [foldl_step] at htold
  have hlawful : (true && t.all releases) = true := by
    rw [Bool.true_and, List.all_eq_true]
    exact hreleases
  calc
    held t = [] ↔ (false || t.any loses) = false := htold hlawful
    _ ↔ ∀ x ∈ t, loses x = false := by
      rw [Bool.false_or, List.any_eq_false]
      simp only [Bool.not_eq_true]

theorem held_nil_of_ends (h : Ends driver) (hr : Runs driver.run t r) (hreleases : Released t) : held t = [] := by
  have htold : After (step losesNothing) start driver.run fun s _ => s.Told :=
    (h start clear_start).mono fun s _ hs => hs.told
  exact (held_iff_of_told htold hr hreleases).mpr fun _ _ => rfl

end Watched

/-- In every run whose releases succeed, the two sync drivers return with nothing held, the horizon pass
does exactly where it could read and decode every event, and the forgetting of scopes exactly where the
store failed to forget none. -/
theorem held_nil_iff (I : Interface) (account : AccountId) (req : LeaseRequest) :
    (∀ (μ η : Type) (syncer : ScopeSyncer (I.fetching μ η)) t r,
      Runs (runScope syncer account req).run t r → Released t → held t = []) ∧
    (∀ (γ : Type) [Mail.MailContent γ] (pass : FolderPass I γ) t r,
      Runs (streamEmail pass account).run t r → Released t → held t = []) ∧
    (∀ (ε : Type) (expander : Expander I.Payload ε) (window : ExpansionWindow) t r,
      Runs (expandCalendarHorizon expander account req window).run t r → Released t →
        (held t = [] ↔ ∀ x ∈ t, unreadable expander x = false)) ∧
    (∀ (scopes : List SyncScope) (t : List (Event I)) r, Runs (forgetScopes account req scopes).run t r → Released t →
        (held t = [] ↔ ∀ x ∈ t, unforgotten x = false)) := by
  refine ⟨?_, ?_, ?_, ?_⟩
  · intro μ η syncer t r hr
    exact held_nil_of_ends (ends_attempts maxStaleReclaims) hr
  · intro γ _ pass t r hr
    exact held_nil_of_ends (ends_restart maxStaleReclaims none) hr
  · intro ε expander window t r hr
    exact held_iff_of_told ((spent_expandCalendarHorizon clear_start).mono fun _ _ h => h.told) hr
  · intro scopes t r hr
    exact held_iff_of_told ((spent_forgetEach scopes 0 clear_start).mono fun _ _ h => h.told) hr

/-! ## A calendar whose events cannot be read -/

namespace Sample

/-- A store of events that are their own expansion, with no other read. -/
def plain : Interface where
  Payload := List OccurrenceRow
  Read := Empty
  ReadAnswer := fun r => nomatch r
  Update := Unit
  Derived := Unit
  Observation := Unit
  Reconciliation := Unit
  Fetched := Unit
  Chunk := Unit

def expander : Expander plain.Payload (List OccurrenceRow) := ⟨.ok, fun event _ _ => .ok event⟩

def request : LeaseRequest := ⟨"worker", 30 * second⟩

def holiday : Horizon := ⟨⟨0, by decide⟩, ⟨1, by decide⟩, by decide⟩

def window : ExpansionWindow := ⟨holiday, "Europe/Amsterdam"⟩

def calendar : SyncScope := .davCollection "a" "/cal/"

def lease : SyncLease := ⟨"a", calendar, 1, "worker", ⟨30 * second, by decide⟩⟩

/-- A store with one calendar, never expanded, that answers for its keys and for what the pass
writes as given. -/
def store (keys : Result (List ProviderKey)) (written : Result Unit) : (q : Ask plain.calendar) → q.Answer
  | .read (.accountScopes _) => .ok [calendar]
  | .read (.expansionWindow _) => .ok none
  | .read (.loadSyncState _ _) => .ok none
  | .read (.objectKeys _) => keys
  | .read (.objectPayload _ _) => .ok (some [])
  | .read (.other r) => nomatch r
  | .claimSyncScope _ _ _ => .ok ⟨lease, none⟩
  | .renewSyncScopeLease _ _ => .ok ()
  | .releaseSyncScope _ => .ok ()
  | .applySyncUpdate _ _ => .ok ⟨0, 0, 0⟩
  | .applyMaintenance _ _ => written
  | .setExpansionWindow _ _ => .ok ()
  | .forgetScope _ => .ok ()
  | .fetch _ _ => .ok ()
  | .streamEmail _ _ _ _ _ => ⟨[], 0⟩

def pass : Driver plain.calendar HorizonExpansion := expandCalendarHorizon expander "a" request window

def ran (keys : Result (List ProviderKey)) (written : Result Unit) :
    List (Event plain.calendar) × Except SyncError HorizonExpansion :=
  run (fun _ q => store keys written q) [] pass.run

def full : Result Unit := .error (.backend "database or disk is full")

end Sample

open Sample in
/-- A pass that reads an event and cannot write what it expands to fails, and holds nothing. -/
theorem readable_given_back : held (ran (.ok ["holiday.ics"]) full).1 = [] ∧
    (ran (.ok ["holiday.ics"]) full).2.isOk = false ∧
    ⟨.read (.objectPayload calendar "holiday.ics"), .ok (some [])⟩ ∈ (ran (.ok ["holiday.ics"]) full).1 := by
  refine ⟨?_, by decide, List.mem_of_getElem? (i := 4) rfl⟩
  exact ((held_nil_iff plain "a" request).2.2.1 _ expander window _ _
    (runs_run (fun _ q => store (.ok ["holiday.ics"]) full q) pass.run) (by decide)).mpr (by decide)

open Sample in
/-- One that cannot returns with the lease still held. -/
theorem unreadable_stays_held :
    Runs pass.run (ran (.error (.backend "disk I/O error")) (.ok ())).1 (ran (.error (.backend "disk I/O error")) (.ok ())).2 ∧
      Released (ran (.error (.backend "disk I/O error")) (.ok ())).1 ∧
      held (ran (.error (.backend "disk I/O error")) (.ok ())).1 = [lease] := by
  refine ⟨runs_run _ _, ?_, ?_⟩
  · decide
  · decide

end Drivers
end SyncEngine
