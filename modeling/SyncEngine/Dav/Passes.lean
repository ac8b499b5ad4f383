import SyncEngine.Dav.Adapter

/-!
# The passes between other passes

The drivers' programs with the adapter in them.  Every step of a pass keeps the invariant and takes from
the store only what was gone at some time in the pass.  A pass that nothing happens beside, and whose
requests are answered, ends well and leaves the store as `Settled` says.
-/

namespace SyncEngine
namespace Dav

open Journal Dialogue
open Setting
open Scope (Store ScopeRow)
open Drivers (Driver ScopeSync ScopeRun ScopeFetch SyncError orFail answer)

variable {ε : Type}

section

variable (sv : Server) (c : Synced ε) (mode : Mode) (i : Nat) (start : World ε)
variable (tag : Option CollectionTag)

/-- What a pass that was started in `start` can count on before it writes: the state its tag is of is
noted, and if it is alone, everything is as it was. -/
structure Ready (w : World ε) : Prop where
  since : start.log.length ≤ w.log.length
  tagged : ∀ T, tag = some T → ∃ n, w.listed i = some n ∧ T = sv.tagOf n
  noted : mode.solo = some i → ∀ T, tag = some T → w.listed i = some start.log.length
  alone : mode.solo = some i → w.log = start.log ∧ w.cursor c.scope = start.cursor c.scope ∧
    w.held c.scope = start.held c.scope

structure Leased (claim : SyncClaim) (held : ProviderKey → Option ε) (w : World ε) : Prop where
  under : Under sv c mode i claim.lease.token start.log.length claim.state held w
  ready : Ready sv c mode i start tag w
  named : claim.lease.scope = c.scope
  begun : mode.solo = some i →
    claim.state = start.cursor c.scope ∧ held = start.held c.scope ∧ 0 < claim.lease.token

/-- What a pass leaves that was alone and applied an update. -/
structure Settled (w : World ε) : Prop where
  whole : mode.whole = true → Agreed c w.log (w.held c.scope)
  advances : mode.honouring = true → Agreed c w.log (w.held c.scope) ∨
    ∃ next, w.cursor c.scope = some next ∧ Advances w (start.cursor c.scope) next
  keeps : Agreed c start.log (start.held c.scope) → Agreed c w.log (w.held c.scope)

/-- How a pass ends that was alone: the journal is as it was, it did not fail if everybody obliged, and
what it did is good. -/
def Finishes {α : Type} (Q : α → World ε → Prop) (r : Except SyncError α) (w : World ε) : Prop :=
  mode.solo = some i → w.log = start.log ∧ (mode.obliging = true → r.isOk = true) ∧
    ∀ a, r = .ok a → Q a w

end

variable {sv : Server} {c : Synced ε} {mode : Mode} {i : Nat} {start : World ε}
variable {tag : Option CollectionTag} {w w' : World ε} {adv : Bool}

/-! ## Driving -/

section Drive

variable {S : Setting (Request ε) Request.Answer (World ε)}
variable {good : Served (Request ε) Request.Answer (World ε) → Prop} {α β : Type}

variable {f : α → Driver (fetching ε) β} {P : Except SyncError β → World ε → Prop}

theorem meets_drive_bind {x : Driver (fetching ε) α} (h : S.Meets i good (fun r w => match r with
      | .error e => P (.error e) w
      | .ok a => S.Meets i good P (c.drive adv (f a)) w) (c.drive adv x) w) :
    S.Meets i good P (c.drive adv (x >>= f)) w := by
  unfold Synced.drive
  rw [expand_bind_except]
  refine meets_bind_except (h.mono ?_)
  intro r w h
  cases r with
  | error e => exact h
  | ok a => exact h

theorem meets_orFail {call : Drivers.Talk (fetching ε) (Result α)} {P : Except SyncError α → World ε → Prop}
    (h : S.Meets i good (fun a w => P (a.mapError .store) w) (expand (c.behind adv) call) w) :
    S.Meets i good P (c.drive adv (orFail call)) w := by
  show S.Meets i good P (expand (c.behind adv) (call >>= fun a => pure (a.mapError .store))) w
  rw [expand_bind]
  exact meets_bind h

theorem meets_answer_bind {call : Drivers.Talk (fetching ε) α}
    (h : S.Meets i good (fun a w => S.Meets i good P (c.drive adv (f a)) w) (expand (c.behind adv) call) w) :
    S.Meets i good P (c.drive adv (answer call >>= f)) w := by
  refine meets_drive_bind ?_
  show S.Meets i good _ (expand (c.behind adv) (Except.ok <$> call)) w
  rw [map_eq_pure_bind, expand_bind]
  exact meets_bind h

end Drive

/-! ## What is ready stays ready -/

theorem Ready.rely (h : Ready sv c mode i start tag w) (hrely : (setting sv c mode).rely i w w') :
    Ready sv c mode i start tag w' := by
  refine ⟨Nat.le_trans h.since hrely.1.log.length_le, ?_, ?_, ?_⟩
  · rw [hrely.1.listed]
    exact h.tagged
  · rw [hrely.1.listed]
    exact h.noted
  · intro hs
    rw [← hrely.2 hs]
    exact h.alone hs

/-- The requests the adapter makes. -/
def AsksServer : Request ε → Prop
  | .store _ | .listing => False
  | _ => True

theorem only_fillBodies (collection : String) (report : MultiStatus) :
    (fillBodies collection report : Adapter ε MultiStatus).run.Only AsksServer := by
  have hbatches : ∀ (order : List (List String)) (report : MultiStatus),
      (fillBatches report order : Adapter ε MultiStatus).run.Only AsksServer := by
    intro order
    induction order with
    | nil => exact fun _ => trivial
    | cons hrefs rest ih =>
      intro report
      exact only_bind_except (only_request trivial) fun fetched => ih _
  unfold fillBodies
  refine only_ite trivial ?_
  exact only_bind_except (only_lift (only_request trivial)) fun order => hbatches order report

variable (reader : String → Props → Option ε)

theorem only_byCtag (collection : String)
    (cursor : Option SyncState) : (byCtag reader collection cursor).run.Only AsksServer := by
  refine only_bind_except ?_ ?_
  · refine only_bind_except (only_request trivial) ?_
    intro properties
    cases properties.responses.findSome? (·.props.getctag) with
    | none => trivial
    | some ctag =>
      refine only_ite trivial ?_
      refine only_bind_except (only_request trivial) fun members => ?_
      exact only_bind_except (only_fillBodies collection members) fun _ => trivial
  · intro sync
    cases sync <;> trivial

theorem only_readReport (collection tokenless : String) (ms : MultiStatus) (snapshot : Bool) :
    (readReport reader collection tokenless ms snapshot).run.Only AsksServer := by
  refine only_bind_except (only_fillBodies collection ms) ?_
  intro ms
  cases ms.syncToken <;> trivial

theorem only_syncMembers (collection tokenless : String) (cursor : Option SyncState) :
    (syncMembers reader collection tokenless cursor).run.Only AsksServer := by
  have hctag : ∀ flag : Bool, (do return (← byCtag reader collection cursor, flag) :
      Adapter ε (ScopeSync (fetching ε) × Bool)).run.Only AsksServer :=
    fun flag => only_bind_except (only_byCtag reader collection cursor) fun _ => trivial
  have hread : ∀ (ms : MultiStatus) (snapshot flag : Bool),
      (do return (← readReport reader collection tokenless ms snapshot, flag) :
      Adapter ε (ScopeSync (fetching ε) × Bool)).run.Only AsksServer :=
    fun ms snapshot flag => only_bind_except (only_readReport reader collection tokenless ms snapshot) fun _ => trivial
  unfold syncMembers
  refine only_ite (hctag false) ?_
  refine only_bind_except (only_lift (only_request trivial)) ?_
  intro a
  cases a with
  | ok ms => exact only_ite (hread ms _ false) (hctag _)
  | error e =>
    refine only_ite ?_ (only_ite trivial (hctag _))
    exact only_bind_except (only_request trivial) fun ms => hread ms true true

theorem Ready.served {q : Request ε} {a : q.Answer} (hq : AsksServer q)
    (hs : sv.Serves i w q a w') (h : Ready sv c mode i start tag w) :
    Ready sv c mode i start tag w' := by
  cases hs with
  | store _ => exact hq.elim
  | listingFailed _ => exact hq.elim
  | listing _ _ => exact hq.elim
  | report _ _ _ _ _ _ _ => exact ⟨h.since, h.tagged, h.noted, h.alone⟩
  | reportFailed _ _ => exact h
  | reportTokenless _ _ _ _ => exact h
  | ctagFailed _ => exact h
  | ctag _ _ => exact h
  | membersFailed _ => exact h
  | members _ _ _ => exact h
  | multigetFailed _ _ => exact h
  | multiget _ _ _ => exact h
  | arrivals _ _ _ => exact h

theorem Ready.same (h : Ready sv c mode i start tag w) (hsame : Same c.scope w w') : Ready sv c mode i start tag w' := by
  refine ⟨?_, ?_, ?_, ?_⟩
  · rw [hsame.log]
    exact h.since
  · rw [hsame.listed]
    exact h.tagged
  · rw [hsame.listed]
    exact h.noted
  · rw [hsame.log, hsame.cursor, hsame.held]
    exact h.alone

/-! ## The calls to the store -/

theorem meets_idle (hsolo : ∀ j, mode.solo = some j → j = i) {q : Drivers.Ask (fetching ε)}
    (hq : ∀ w a w', StoreServes i w q a w' → Same c.scope w w') {P : q.Answer → World ε → Prop}
    (hP : ∀ w₁ a w₂, (setting sv c mode).rely i w w₁ → Inv sv c w₁ → Same c.scope w₁ w₂ →
      (setting sv c mode).serves i w₁ (.store q) a w₂ → P a w₂) :
    (setting sv c mode).Meets i (Safe c start.log.length) P (send (.store q)) w := by
  refine meets_request ?_
  intro w₁ hrely hinv a w₂ hserves
  have hsame : Same c.scope w₁ w₂ := by
    cases hserves.1 with
    | store hs => exact hq w₁ a w₂ hs
  refine ⟨hinv.of_same hsame, ?_, safe_of_held hsame.held _, hP w₁ a w₂ hrely hinv hsame hserves⟩
  exact fun j hj => ⟨hsame.rely j, fun hs => absurd (hsolo j hs) hj⟩

variable {req : LeaseRequest}

theorem meets_claim (hsolo : ∀ j, mode.solo = some j → j = i) (hready : Ready sv c mode i start tag w) :
    (setting sv c mode).Meets i (Safe c start.log.length) (fun a w => match a with
      | .error _ => Ready sv c mode i start tag w ∧ ¬mode.obliging = true
      | .ok claim => ∃ held, Leased sv c mode i start tag claim held w)
      (expand (c.behind adv) (Drivers.claimSyncScope c.account c.scope req)) w := by
  rw [Drivers.claimSyncScope, Drivers.ask, expand_request]
  refine meets_request ?_
  intro w₁ hrely hinv a w₂ hserves
  have hready₁ := hready.rely hrely
  cases hserves.1 with
  | store hs =>
    cases hs with
    | claimFailed _ _ _ e =>
      refine ⟨hinv, fun j _ => (setting sv c mode).refl j w₁, safe_of_held rfl _, hready₁, ?_⟩
      intro ho
      exact nomatch hserves.2.2.2.1 ho
    | granted _ _ _ now claim st h =>
      have hg : Granted c.scope w₁ { w₁ with store := st, holder := i } claim := granted_of_claim h
      have hinv₂ := hinv.of_parts hg.log hg.issued hg.listed hg.cursor hg.tag hg.held
      have hrely₂ : ∀ j, Rely c.scope j w₁ { w₁ with store := st, holder := i } := by
        intro j
        have htoken := hg.token
        refine ⟨List.prefix_refl _, fun _ _ h => h, by omega, ?_, rfl⟩
        intro he
        omega
      refine ⟨hinv₂, fun j hj => ⟨hrely₂ j, fun hs => absurd (hsolo j hs) hj⟩,
        safe_of_held hg.held _, w₁.held c.scope, ?_⟩
      refine ⟨⟨hinv₂, hready₁.since, by rw [hg.leased], fun _ => ⟨rfl, hg.held⟩, ?_, ?_⟩,
        ⟨hready₁.since, hready₁.tagged, hready₁.noted, ?_⟩, hg.named, ?_⟩
      · intro cur hcur
        have hstands := hinv₂.cursor cur (by rw [hg.cursor, ← hg.state, hcur])
        rwa [hg.held] at hstands
      · exact fun _ => hg.leased.symm
      · intro hs
        rw [hg.cursor, hg.held]
        exact hready₁.alone hs
      · intro hs
        obtain ⟨-, hcursor, hheld⟩ := hready₁.alone hs
        have htoken := hg.token
        have hleased := hg.leased
        exact ⟨hg.state.trans hcursor, hheld, by omega⟩

variable (lease : SyncLease)

theorem idle_release (w : World ε) (a : Result Unit) (w' : World ε)
    (hs : StoreServes i w (.releaseSyncScope lease) a w') : Same c.scope w w' := by
  cases hs with
  | releaseFailed _ e => exact Same.refl c.scope w
  | released _ => exact same_release lease c.scope

theorem idle_setExpansionWindow (window : ExpansionWindow) (w : World ε) (a : Result Unit) (w' : World ε)
    (hs : StoreServes i w (.setExpansionWindow lease window) a w') : Same c.scope w w' := by
  cases hs with
  | windowUnset _ _ e _ => exact Same.refl c.scope w
  | windowSet _ _ => exact same_setExpansionWindow lease window c.scope

/-! ## Under a lease -/

section Lease

variable {claim : SyncClaim} {held : ProviderKey → Option ε}

theorem Leased.rely (h : Leased sv c mode i start tag claim held w)
    (hrely : (setting sv c mode).rely i w w') (hinv : Inv sv c w') :
    Leased sv c mode i start tag claim held w' :=
  ⟨lasts_under w w' hrely hinv h.under, h.ready.rely hrely, h.named, h.begun⟩

theorem meets_fetch (hsolo : ∀ j, mode.solo = some j → j = i) (hcol : c.collection = sv.collection)
    (h : Leased sv c mode i start tag claim held w) :
    (setting sv c mode).Meets i (Safe c start.log.length) (fun a w =>
      Leased sv c mode i start tag claim held w ∧ (mode.obliging = true → a.isOk = true) ∧
      (∀ reason, a = .ok (.halt reason) → adv = false) ∧
      ∀ sync extra, a = .ok (.proceed sync extra) → Brought sv c mode i claim.lease.token
        start.log.length claim.state held ⟨sync.update, sync.nextCursor⟩ w)
      (expand (c.behind adv) (Drivers.fetch c.account claim.state)) w := by
  rw [Drivers.fetch, Drivers.ask, expand_request]
  show (setting sv c mode).Meets i _ _ (c.fetch adv claim.state) w
  unfold Synced.fetch
  cases adv with
  | false =>
    refine ⟨h, fun _ => rfl, fun _ _ => rfl, ?_⟩
    intro sync extra he
    exact nomatch Except.ok.inj he
  | true =>
    rw [if_pos rfl, hcol]
    refine meets_bind (((meets_syncMembers hsolo h.under).frame
      (only_syncMembers c.reader sv.collection c.tokenless claim.state)
      (fun w w' hrely hready => Ready.rely hready hrely)
      (fun w q a w' hq hs hready => Ready.served hq hs.1 hready) h.ready).mono ?_)
    intro r w' ⟨⟨hu, hok, hends⟩, hready⟩
    have hleased : Leased sv c mode i start tag claim held w' := ⟨hu, hready, h.named, h.begun⟩
    cases r with
    | error e =>
      exact ⟨hleased, hok, (fun _ he => nomatch he), fun _ _ he => nomatch he⟩
    | ok a =>
      refine ⟨hleased, fun _ => rfl, ?_, ?_⟩
      · intro reason he
        exact nomatch Except.ok.inj he
      · intro sync extra he
        injection Except.ok.inj he with hsync _
        rw [← hsync]
        exact hends a rfl

theorem Leased.isCurrent (h : Leased sv c mode i start tag claim held w) (hs : mode.solo = some i) :
    w.store.isCurrent claim.lease.scope claim.lease.token = true := by
  have htoken := h.under.alone hs
  have hpos := (h.begun hs).2.2
  rw [h.named, Scope.isCurrent_iff]
  unfold World.token World.row at htoken
  cases hrow : w.store.syncScope.get? c.scope with
  | none =>
    rw [hrow] at htoken
    have hzero : 0 = claim.lease.token := htoken
    omega
  | some row =>
    rw [hrow] at htoken
    exact ⟨row, rfl, htoken⟩

/-- What an accepted apply leaves. -/
structure Written (c : Synced ε) (update : SyncUpdate ε) (next : SyncState) (tag : Option CollectionTag)
    (w w' : World ε) : Prop where
  log : w'.log = w.log
  issued : w'.issued = w.issued
  listed : w'.listed = w.listed
  holder : w'.holder = w.holder
  token : w'.token c.scope = w.token c.scope
  cursor : w'.cursor c.scope = some next
  tag : w'.tag c.scope = tag
  held : w'.held c.scope = update.result (w.held c.scope)

variable {sync : ScopeSync (fetching ε)}

theorem Written.inv {t : Nat} (hw : Written c sync.update sync.nextCursor tag w w')
    (hu : Under sv c mode i t start.log.length claim.state held w)
    (hready : Ready sv c mode i start tag w) (hheld : w.held c.scope = held)
    (hb : Brings sv c mode i start.log.length claim.state held sync w) : Inv sv c w' := by
  refine ⟨?_, ?_, ?_, ?_, ?_⟩
  · rw [hw.log]
    exact hu.inv.members
  · rw [hw.log, hw.issued]
    exact hu.inv.issued
  · rw [hw.log, hw.listed]
    exact hu.inv.listed
  · rw [hw.cursor, hw.held, hheld]
    intro cur hcur
    rw [← Option.some.inj hcur]
    refine hb.stands.grow (by rw [hw.log]) ?_
    rw [hw.issued]
    exact fun _ _ h => h
  · rw [hw.tag, hw.log, hw.held, hheld]
    intro T hT
    obtain ⟨n, hlisted, hspelled⟩ := hready.tagged T hT
    exact ⟨n, hu.inv.listed i n hlisted, hspelled, hb.agrees n (.inr hlisted)⟩

variable {update : SyncUpdate ε} {next : SyncState}

theorem Written.rely (hw : Written c update next tag w w')
    (hholder : w.holder = i) {j : Nat} (hj : j ≠ i) : Rely c.scope j w w' where
  log := by rw [hw.log]
  issued token known h := by rwa [hw.issued]
  token := by rw [hw.token]
  fenced _ := ⟨hw.holder, fun hj' => absurd (hj'.symm.trans hholder) hj⟩
  listed := by rw [hw.listed]

theorem Written.settled (hw : Written c sync.update sync.nextCursor tag w w')
    (hlog : w.log = start.log) (hstate : claim.state = start.cursor c.scope)
    (hheld : w.held c.scope = held) (hstart : held = start.held c.scope)
    (hb : Brings sv c mode i start.log.length claim.state held sync w) :
    Settled c mode start w' := by
  have hlen : w.log.length = start.log.length := by rw [hlog]
  refine ⟨?_, ?_, ?_⟩
  · intro hwhole
    rw [hw.log, hw.held, hheld]
    exact hb.agrees _ (.inl ⟨hwhole, rfl⟩) hlen
  · intro hhon
    rw [hw.log, hw.held, hheld]
    rcases hb.advances hhon hlen with hagree | hadv
    · exact .inl hagree
    · right
      refine ⟨sync.nextCursor, hw.cursor, ?_⟩
      rw [← hstate]
      refine hadv.grow hw.log.symm ?_
      rw [hw.issued]
      exact fun _ _ h => h
  · intro hagree
    rw [hw.log, hw.held, hheld]
    rw [← hstart, ← hlog] at hagree
    exact hb.keeps hlen hagree

theorem written_of_apply {row : ScopeRow} {st : Store ε} (hrow : w.store.syncScope.get? c.scope = some row)
    (hrow' : st.syncScope.get? c.scope = some (Scope.applied row (some (next, tag))))
    (hheld : st.objectPayload c.scope = update.result (w.store.objectPayload c.scope)) :
    Written c update next tag w { w with store := st } := by
  refine ⟨rfl, rfl, rfl, rfl, ?_, ?_, ?_, hheld⟩
  · rw [World.token_of_row hrow, World.token_of_row hrow']
    rfl
  · rw [World.cursor_of_row hrow']
    rfl
  · rw [World.tag_of_row hrow']
    rfl

theorem meets_apply (hsolo : ∀ j, mode.solo = some j → j = i)
    {batch : Drivers.ApplyBatch (fetching ε)} (hupdate : batch.update = sync.update)
    (hnext : batch.nextState = some sync.nextCursor) (htag : batch.collectionTag = tag)
    (h : Leased sv c mode i start tag claim held w)
    (hb : Brought sv c mode i claim.lease.token start.log.length claim.state held sync w) :
    (setting sv c mode).Meets i (Safe c start.log.length) (fun a w => match a with
      | .ok _ => mode.solo = some i → w.log = start.log ∧ Settled c mode start w
      | .error e => Ready sv c mode i start tag w ∧
          (mode.solo = some i → e ≠ .staleLease ∧ ¬mode.obliging = true))
      (expand (c.behind adv) (Drivers.applySyncUpdate claim.lease batch)) w := by
  rw [Drivers.applySyncUpdate, Drivers.ask, expand_request]
  refine meets_request ?_
  intro w₁ hrely hinv a w₂ hserves
  have h₁ := h.rely hrely hinv
  obtain ⟨hu₁, hb₁⟩ := lasts_brought w w₁ hrely hinv hb
  cases hserves.1 with
  | store hs =>
    cases hs with
    | applyFailed _ _ e hne =>
      refine ⟨hinv, fun j _ => (setting sv c mode).refl j w₁, safe_of_held rfl _, h₁.ready, ?_⟩
      intro _
      exact ⟨hne, fun ho => hne (hserves.2.2.2.1 ho e rfl)⟩
    | applied _ _ =>
      rw [hnext, htag, hupdate]
      rcases Scope.apply_cases w₁.store claim.lease sync.update batch.derived (some (sync.nextCursor, tag)) with
        ⟨hstale, he⟩ | ⟨row, st, counts, hrow, htoken, he, hrow', hobjects⟩
      · rw [Option.map_some, he]
        refine ⟨hinv, fun j _ => (setting sv c mode).refl j w₁, safe_of_held rfl _, h₁.ready, ?_⟩
        intro hs
        rw [h₁.isCurrent hs] at hstale
        exact nomatch hstale
      · rw [Option.map_some, he]
        rw [h₁.named] at hrow hrow' hobjects
        have hmine : w₁.token c.scope = claim.lease.token := by rw [World.token_of_row hrow, htoken]
        obtain ⟨hholder, hheld⟩ := hu₁.mine hmine
        have hbrings := hb₁ hmine
        have hw := written_of_apply hrow hrow' hobjects
        refine ⟨hw.inv hu₁ h₁.ready hheld hbrings, ?_, ?_, ?_⟩
        · exact fun j hj => ⟨hw.rely hholder hj, fun hs => absurd (hsolo j hs) hj⟩
        · intro k hsome hnone
          refine hbrings.drops k ?_ ?_
          · rw [← hheld]
            exact hsome
          · rw [← hheld, ← hw.held]
            exact hnone
        · intro hs
          obtain ⟨hlog, -, -⟩ := h₁.ready.alone hs
          obtain ⟨hstate, hstart, -⟩ := h₁.begun hs
          exact ⟨hlog, hw.settled hlog hstate hheld hstart hbrings⟩

end Lease

/-! ## One run of a scope -/

/-- A run that applied something left the store settled; only an account without address books makes one
halt. -/
def RunSettled (c : Synced ε) (mode : Mode) (start : World ε) (adv : Bool) :
    ScopeRun Bool Unit → World ε → Prop
  | .applied _ _, w => Settled c mode start w
  | .halted _, _ => adv = false

theorem Settled.same (h : Settled c mode start w) (hsame : Same c.scope w w') : Settled c mode start w' := by
  refine ⟨?_, ?_, ?_⟩
  · rw [hsame.log, hsame.held]
    exact h.whole
  · rw [hsame.log, hsame.held, hsame.cursor]
    intro hhon
    rcases h.advances hhon with hagree | ⟨next, hcur, hadv⟩
    · exact .inl hagree
    · refine .inr ⟨next, hcur, hadv.grow hsame.log.symm ?_⟩
      rw [hsame.issued]
      exact fun _ _ h => h
  · rw [hsame.log, hsame.held]
    exact h.keeps

variable {α : Type} {Q : α → World ε → Prop} {e : SyncError}

theorem finishes_error (hready : Ready sv c mode i start tag w) (hno : mode.solo = some i → ¬mode.obliging = true) :
    Finishes mode i start Q (.error e) w := by
  intro hs
  exact ⟨(hready.alone hs).1, fun ho => absurd ho (hno hs), fun _ he => nomatch he⟩

theorem meets_releaseAndFail (hsolo : ∀ j, mode.solo = some j → j = i) {lease : SyncLease}
    (hready : Ready sv c mode i start tag w) (hno : mode.solo = some i → ¬mode.obliging = true) :
    (setting sv c mode).Meets i (Safe c start.log.length) (Finishes mode i start Q)
      (c.drive adv (Drivers.releaseAndFail lease e)) w := by
  refine meets_answer_bind ?_
  rw [Drivers.releaseSyncScope, Drivers.ask, expand_request]
  refine meets_idle hsolo (idle_release lease) ?_
  intro w₁ a w₂ hrely _ hsame _
  exact finishes_error ((hready.rely hrely).same hsame) hno

theorem meets_releaseAndReturn (hsolo : ∀ j, mode.solo = some j → j = i) {lease : SyncLease} {run : ScopeRun Bool Unit}
    (h : mode.solo = some i → w.log = start.log ∧ RunSettled c mode start adv run w) :
    (setting sv c mode).Meets i (Safe c start.log.length) (Finishes mode i start (RunSettled c mode start adv))
      (c.drive adv (do orFail (Drivers.releaseSyncScope lease); return run)) w := by
  refine meets_drive_bind (meets_orFail ?_)
  rw [Drivers.releaseSyncScope, Drivers.ask, expand_request]
  refine meets_idle hsolo (idle_release lease) ?_
  intro w₁ a w₂ hrely _ hsame hserves
  have hend : mode.solo = some i → w₂.log = start.log ∧ RunSettled c mode start adv run w₂ := by
    intro hs
    obtain ⟨hlog, hset⟩ := h hs
    rw [hrely.2 hs] at hlog hset
    refine ⟨hsame.log.trans hlog, ?_⟩
    cases run with
    | applied counts extra => exact Settled.same hset hsame
    | halted reason => exact hset
  cases a with
  | error e =>
    intro hs
    refine ⟨(hend hs).1, ?_, fun _ he => nomatch he⟩
    intro ho
    exact nomatch hserves.2.2.2.1 ho
  | ok u =>
    intro hs
    refine ⟨(hend hs).1, fun _ => rfl, ?_⟩
    intro run' he
    obtain rfl := Except.ok.inj he
    exact (hend hs).2

section Run

variable {derive : ScopeSync (fetching ε) → DerivedWrite} {req : LeaseRequest}

variable {again : Option (Driver (fetching ε) (ScopeRun Bool Unit))}

theorem meets_commit (hsolo : ∀ j, mode.solo = some j → j = i) {claim : SyncClaim}
    {held : ProviderKey → Option ε} {sync : ScopeSync (interface ε)} {extra : Bool}
    (hagain : ∀ p, again = some p → ∀ w, Ready sv c mode i start tag w →
      (setting sv c mode).Meets i (Safe c start.log.length)
        (Finishes mode i start (RunSettled c mode start adv)) (c.drive adv p) w)
    (h : Leased sv c mode i start tag claim held w)
    (hb : Brought sv c mode i claim.lease.token start.log.length claim.state held ⟨sync.update, sync.nextCursor⟩ w) :
    (setting sv c mode).Meets i (Safe c start.log.length) (Finishes mode i start (RunSettled c mode start adv))
      (c.drive adv ((c.syncer derive tag).commit c.account req claim sync extra again)) w := by
  refine meets_answer_bind ?_
  -- A calendar and an address book have no observations to read.
  show (setting sv c mode).Meets i _ _ (c.drive adv (answer _ >>= _)) w
  refine meets_answer_bind ((meets_apply hsolo rfl rfl rfl h hb).mono ?_)
  intro a w₁ hend
  cases a with
  | ok counts => exact meets_releaseAndReturn hsolo hend
  | error e =>
    obtain ⟨hready, hsolo₁⟩ := hend
    cases e with
    | staleLease =>
      cases hcase : again with
      | none => exact meets_releaseAndFail hsolo hready fun hs => (hsolo₁ hs).2
      | some p => exact hagain p hcase w₁ hready
    | _ => exact meets_releaseAndFail hsolo hready fun hs => (hsolo₁ hs).2

theorem meets_attempt (hsolo : ∀ j, mode.solo = some j → j = i) (hcol : c.collection = sv.collection)
    (hagain : ∀ p, again = some p → ∀ w, Ready sv c mode i start tag w →
      (setting sv c mode).Meets i (Safe c start.log.length)
        (Finishes mode i start (RunSettled c mode start adv)) (c.drive adv p) w)
    (hready : Ready sv c mode i start tag w) :
    (setting sv c mode).Meets i (Safe c start.log.length) (Finishes mode i start (RunSettled c mode start adv))
      (c.drive adv ((c.syncer derive tag).attempt c.account req again)) w := by
  refine meets_drive_bind (meets_orFail ((meets_claim hsolo hready).mono ?_))
  intro a w₁ hclaimed
  cases a with
  | error e => exact finishes_error hclaimed.1 fun _ => hclaimed.2
  | ok claim =>
    obtain ⟨held, hleased⟩ := hclaimed
    refine meets_answer_bind ((meets_fetch hsolo hcol hleased).mono ?_)
    intro a w₂ ⟨hleased₂, hok, hhalt, hbrought⟩
    cases a with
    | error e =>
      refine meets_releaseAndFail hsolo hleased₂.ready ?_
      intro _ ho
      exact nomatch hok ho
    | ok fetched =>
      cases fetched with
      | halt reason =>
        refine meets_releaseAndReturn hsolo ?_
        intro hs
        exact ⟨(hleased₂.ready.alone hs).1, hhalt reason rfl⟩
      | proceed sync extra =>
        exact meets_commit hsolo hagain hleased₂ (hbrought sync extra rfl)

theorem meets_runScope (hsolo : ∀ j, mode.solo = some j → j = i) (hcol : c.collection = sv.collection)
    (hready : Ready sv c mode i start tag w) :
    (setting sv c mode).Meets i (Safe c start.log.length) (Finishes mode i start (RunSettled c mode start adv))
      (c.drive adv (Drivers.runScope (c.syncer derive tag) c.account req)) w := by
  unfold Drivers.runScope
  generalize Drivers.maxStaleReclaims = reclaims
  induction reclaims generalizing w with
  | zero => exact meets_attempt hsolo hcol (fun _ he => nomatch he) hready
  | succ reclaims ih =>
    refine meets_attempt hsolo hcol ?_ hready
    intro p he w' hready'
    rw [← Option.some.inj he]
    exact ih hready'

end Run

/-! ## The passes -/

theorem idle_read (r : Drivers.StoreRead (fetching ε)) (w : World ε) (a : r.Answer) (w' : World ε)
    (hs : StoreServes i w (.read r) a w') : Same c.scope w w' := by
  cases hs <;> exact Same.refl c.scope w

theorem meets_tagStands (hsolo : ∀ j, mode.solo = some j → j = i) (hready : Ready sv c mode i start tag w) :
    (setting sv c mode).Meets i (Safe c start.log.length) (fun r w => match r with
      | .error _ => Ready sv c mode i start tag w ∧ ¬mode.obliging = true
      | .ok stands => Ready sv c mode i start tag w ∧
          (stands = true → mode.solo = some i → Agreed c w.log (w.held c.scope)))
      (c.drive adv (c.tagStands tag)) w := by
  cases htag : tag with
  | none => exact ⟨htag ▸ hready, fun he => nomatch he⟩
  | some T =>
    rw [htag] at hready
    refine meets_drive_bind (meets_orFail ?_)
    rw [Drivers.ask, expand_request]
    refine meets_idle hsolo (idle_read (.other c.scope)) ?_
    intro w₁ a w₂ hrely hinv hsame hserves
    have hready₂ := (hready.rely hrely).same hsame
    cases a with
    | error e => exact ⟨hready₂, fun ho => nomatch hserves.2.2.2.1 ho⟩
    | ok recorded =>
      refine ⟨hready₂, ?_⟩
      intro hstands hs
      have hrecorded : w₁.tag c.scope = some T := by
        cases hserves.1 with
        | store hst =>
          cases hst with
          | tag _ => exact of_decide_eq_true hstands
      obtain ⟨n, -, hspelled, hagree⟩ := hinv.tag T hrecorded
      obtain ⟨n', hn', hspelled'⟩ := (hready.rely hrely).tagged T rfl
      rw [(hready.rely hrely).noted hs T rfl] at hn'
      have hn : n = start.log.length := by
        rw [Option.some.inj hn']
        exact sv.tags _ _ (hspelled.symm.trans hspelled')
      rw [hsame.log, hsame.held]
      refine hagree ?_
      rw [hn, ((hready.rely hrely).alone hs).1]

/-- A window is recorded under a lease of its own, which nothing else is written under. -/
theorem meets_seedWindow (hsolo : ∀ j, mode.solo = some j → j = i)
    {window : ExpansionWindow} (hready : Ready sv c mode i start tag w) :
    (setting sv c mode).Meets i (Safe c start.log.length) (fun r w =>
      Ready sv c mode i start tag w ∧ (mode.solo = some i → mode.obliging = true → r.isOk = true))
      (c.drive adv (c.seedWindow req window)) w := by
  refine meets_drive_bind (meets_orFail ((meets_claim hsolo hready).mono ?_))
  intro a w₁ hclaimed
  cases a with
  | error e => exact ⟨hclaimed.1, fun _ ho => absurd ho hclaimed.2⟩
  | ok claim =>
    obtain ⟨held, hleased⟩ := hclaimed
    refine meets_answer_bind ?_
    rw [Drivers.setExpansionWindow, Drivers.ask, expand_request]
    refine meets_idle hsolo (idle_setExpansionWindow claim.lease window) ?_
    intro w₂ result w₃ hrely hinv hsame hserves
    have hleased₂ := hleased.rely hrely hinv
    have hready₃ := hleased₂.ready.same hsame
    have hset : mode.solo = some i → mode.obliging = true → result.isOk = true := by
      intro hs ho
      have hobliges := hserves.2.2.2.1 ho
      cases hserves.1 with
      | store hst =>
        cases hst with
        | windowUnset _ _ e hne => exact absurd (hobliges e rfl) hne
        | windowSet _ _ =>
          unfold Store.setExpansionWindow
          rw [if_pos (hleased₂.isCurrent hs)]
          rfl
    refine meets_drive_bind (meets_orFail ?_)
    rw [Drivers.releaseSyncScope, Drivers.ask, expand_request]
    refine meets_idle hsolo (idle_release claim.lease) ?_
    intro w₄ a w₅ hrely₄ _ hsame₅ hserves₅
    have hready₅ := (hready₃.rely hrely₄).same hsame₅
    cases a with
    | error e => exact ⟨hready₅, fun _ ho => nomatch hserves₅.2.2.2.1 ho⟩
    | ok u =>
      refine ⟨hready₅, ?_⟩
      intro hs ho
      have hok := hset hs ho
      cases result with
      | error e => exact nomatch hok
      | ok u => rfl

variable {seed : ExpansionWindow}

theorem meets_windowOrSeed (hsolo : ∀ j, mode.solo = some j → j = i) (hready : Ready sv c mode i start tag w) :
    (setting sv c mode).Meets i (Safe c start.log.length) (fun r w =>
      Ready sv c mode i start tag w ∧ (mode.solo = some i → mode.obliging = true → r.isOk = true))
      (c.drive adv (c.windowOrSeed req seed)) w := by
  refine meets_drive_bind (meets_orFail ?_)
  rw [Drivers.expansionWindow, Drivers.ask, expand_request]
  refine meets_idle hsolo (idle_read (.expansionWindow c.scope)) ?_
  intro w₁ a w₂ hrely hinv hsame hserves
  have hready₂ := (hready.rely hrely).same hsame
  cases a with
  | error e => exact ⟨hready₂, fun _ ho => nomatch hserves.2.2.2.1 ho⟩
  | ok window =>
    cases window with
    | some window => exact ⟨hready₂, fun _ _ => rfl⟩
    | none =>
      refine meets_drive_bind ((meets_seedWindow hsolo hready₂).mono ?_)
      intro r w₃ hend
      cases r with
      | error e => exact hend
      | ok u => exact ⟨hend.1, fun _ _ => rfl⟩

def OutcomeSettled (c : Synced ε) (mode : Mode) (start : World ε) (adv : Bool) :
    Outcome → World ε → Prop
  | .unchanged, w => Settled c mode start w
  | .synced run, w => RunSettled c mode start adv run w

theorem meets_synced (hsolo : ∀ j, mode.solo = some j → j = i) (hcol : c.collection = sv.collection)
    {derive : ScopeSync (fetching ε) → DerivedWrite}
    (hready : Ready sv c mode i start tag w) :
    (setting sv c mode).Meets i (Safe c start.log.length) (Finishes mode i start (OutcomeSettled c mode start adv))
      (c.drive adv (do
        let run ← Drivers.runScope (c.syncer derive tag) c.account req
        return .synced run)) w := by
  refine meets_drive_bind ((meets_runScope hsolo hcol hready).mono ?_)
  intro r w₁ hend
  cases r with
  | error e =>
    intro hs
    exact ⟨(hend hs).1, (hend hs).2.1, fun _ he => nomatch he⟩
  | ok run =>
    intro hs
    refine ⟨(hend hs).1, fun _ => rfl, ?_⟩
    intro outcome he
    obtain rfl := Except.ok.inj he
    exact (hend hs).2.2 run rfl

theorem meets_syncGroup (hsolo : ∀ j, mode.solo = some j → j = i) (hcol : c.collection = sv.collection)
    (hready : Ready sv c mode i start tag w) :
    (setting sv c mode).Meets i (Safe c start.log.length) (Finishes mode i start (OutcomeSettled c mode start adv))
      (c.drive adv (c.syncGroup req seed tag)) w := by
  refine meets_drive_bind ((meets_tagStands hsolo hready).mono ?_)
  intro r w₁ hend
  cases r with
  | error e => exact finishes_error hend.1 fun _ => hend.2
  | ok stands =>
    obtain ⟨hready₁, hagreed⟩ := hend
    cases stands with
    | true =>
      intro hs
      have hagree := hagreed rfl hs
      refine ⟨(hready₁.alone hs).1, fun _ => rfl, ?_⟩
      intro outcome he
      obtain rfl := Except.ok.inj he
      exact ⟨fun _ => hagree, fun _ => .inl hagree, fun _ => hagree⟩
    | false =>
      refine meets_drive_bind ((meets_windowOrSeed hsolo hready₁).mono ?_)
      intro r w₂ ⟨hready₂, hok⟩
      cases r with
      | error e =>
        refine finishes_error hready₂ ?_
        intro hs ho
        exact nomatch hok hs ho
      | ok window => exact meets_synced hsolo hcol hready₂

/-- Whether a pass may halt, and whether it may find no window to expand over. -/
def Pass.advertised : Pass → Bool
  | .contacts _ advertised => advertised
  | _ => true

def Pass.seeds : Pass → Bool
  | .reconcile _ => false
  | _ => true

def PassEnds (c : Synced ε) (mode : Mode) (i : Nat) (start : World ε) (pass : Pass)
    (r : Except PassError Outcome) (w : World ε) : Prop :=
  mode.solo = some i → w.log = start.log ∧
    (mode.obliging = true → pass.seeds = true → r.isOk = true) ∧
    ∀ outcome, r = .ok outcome → OutcomeSettled c mode start pass.advertised outcome w

theorem meets_driven {pass : Pass} {x : Driver (fetching ε) Outcome}
    (h : (setting sv c mode).Meets i (Safe c start.log.length)
      (Finishes mode i start (OutcomeSettled c mode start pass.advertised)) (c.drive adv x) w) :
    (setting sv c mode).Meets i (Safe c start.log.length) (PassEnds c mode i start pass)
      (do return (← c.drive adv x).mapError .sync) w := by
  refine meets_bind (h.mono ?_)
  intro r w₁ hend hs
  obtain ⟨hlog, hok, hset⟩ := hend hs
  refine ⟨hlog, ?_, ?_⟩
  · intro ho _
    cases r with
    | error e => exact nomatch hok ho
    | ok outcome => rfl
  · intro outcome he
    cases r with
    | error e => exact nomatch he
    | ok o =>
      obtain rfl := Except.ok.inj he
      exact hset o rfl

theorem ready_start (hrely : (setting sv c mode).rely i start w) : Ready sv c mode i start none w :=
  ⟨hrely.1.log.length_le, (fun _ he => nomatch he), (fun _ _ he => nomatch he), fun hs =>
    by rw [hrely.2 hs]; exact ⟨rfl, rfl, rfl⟩⟩

theorem Inv.noted (hinv : Inv sv c w) (i : Nat) (tag : Option CollectionTag) :
    Inv sv c (w.note i (tag.map fun _ => w.log.length)) where
  members := hinv.members
  issued := hinv.issued
  listed := by
    intro j n hn
    by_cases hj : j = i
    · have hlisted : (tag.map fun _ => w.log.length) = some n := by
        rw [← hn]
        exact (if_pos hj).symm
      cases tag with
      | none => exact nomatch hlisted
      | some T =>
        rw [← Option.some.inj hlisted]
        exact Nat.le_refl w.log.length
    · have hlisted : w.listed j = some n := by
        rw [← hn]
        exact (if_neg hj).symm
      exact hinv.listed j n hlisted
  cursor cur hcur := (hinv.cursor cur hcur).grow (List.prefix_refl _) fun _ _ h => h
  tag := hinv.tag

theorem meets_pass (hsolo : ∀ j, mode.solo = some j → j = i) (hcol : c.collection = sv.collection)
    (pass : Pass) (start : World ε) :
    (setting sv c mode).Meets i (Safe c start.log.length) (PassEnds c mode i start pass) (c.pass pass) start := by
  cases pass with
  | calendar req seed =>
    refine meets_bind (meets_request ?_)
    intro w₁ hrely hinv a w₂ hserves
    have hready := ready_start hrely
    cases hserves.1 with
    | listingFailed e =>
      refine ⟨hinv, fun j _ => (setting sv c mode).refl j w₁, safe_of_held rfl _, ?_⟩
      intro hs
      refine ⟨(hready.alone hs).1, ?_, fun _ he => nomatch he⟩
      intro ho
      exact nomatch hserves.2.2.2.1 ho
    | listing props htag =>
      refine ⟨hinv.noted i _, ?_, safe_of_held rfl ⟨.listing, .ok props⟩, ?_⟩
      · intro j hj
        refine ⟨⟨List.prefix_refl _, fun _ _ h => h, Nat.le_refl _, fun _ => ⟨rfl, fun _ => rfl⟩, ?_⟩,
          fun hs => absurd (hsolo j hs) hj⟩
        exact if_neg hj
      · refine meets_driven (meets_syncGroup hsolo hcol ?_)
        have hnoted : ∀ T, collectionTag props = some T →
            (w₁.note i ((collectionTag props).map fun _ => w₁.log.length)).listed i = some w₁.log.length := by
          intro T hT
          rw [hT]
          exact if_pos rfl
        refine ⟨hready.since, ?_, ?_, hready.alone⟩
        · intro T hT
          refine ⟨w₁.log.length, hnoted T hT, ?_⟩
          rw [hT] at htag
          rcases htag with hnone | hsome
          · exact nomatch hnone
          · exact Option.some.inj hsome
        · intro hs T hT
          rw [hnoted T hT, (hready.alone hs).1]
  | reconcile req =>
    refine meets_bind (meets_idle hsolo (idle_read (.expansionWindow c.scope)) ?_)
    intro w₁ a w₂ hrely hinv hsame hserves
    have hready := (ready_start hrely).same hsame
    cases a with
    | error e =>
      intro hs
      exact ⟨(hready.alone hs).1, (fun _ hseeds => nomatch hseeds), fun _ he => nomatch he⟩
    | ok window =>
      cases window with
      | none =>
        intro hs
        exact ⟨(hready.alone hs).1, (fun _ hseeds => nomatch hseeds), fun _ he => nomatch he⟩
      | some window => exact meets_driven (meets_synced hsolo hcol hready)
  | contacts req advertised =>
    exact meets_driven (meets_synced hsolo hcol (ready_start ((setting sv c mode).refl i start)))

end Dav
end SyncEngine
