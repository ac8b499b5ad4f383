import SyncEngine.Dav.Passes

/-!
# Nothing is missed

Any number of passes over one collection run side by side, each suspended between any two of its requests or dropped
there.  On a server that tells everything, no pass takes a member from the store that was there all through the
pass; and once nothing changes any more, one pass brings the store up to date.
-/

namespace SyncEngine
namespace Dav

open Journal
open Setting (Performs performs_ask)

variable {ε : Type} {sv : Server} {c : Synced ε}

/-! ## What happens beside the passes -/

theorem inv_fresh : Inv sv c World.fresh where
  members _ h := nomatch h
  issued _ _ h := nomatch h
  listed _ _ h := nomatch h
  cursor _ h := nomatch h
  tag _ h := nomatch h

theorem Inv.grown {w : World ε} (hinv : Inv sv c w) {h : String} (hmem : sv.member h = true)
    (v : Option Resource) : Inv sv c { w with log := w.log ++ [(h, v)] } := by
  have hlog : w.log <+: w.log ++ [(h, v)] := List.prefix_append _ _
  have hlen : (w.log ++ [(h, v)]).length = w.log.length + 1 := by simp
  refine ⟨?_, ?_, ?_, ?_, ?_⟩
  · intro change hchange
    rcases List.mem_append.mp hchange with hold | hnew
    · exact hinv.members change hold
    · rw [List.mem_singleton.mp hnew]
      exact hmem
  · intro token known hk
    obtain ⟨hdoes, hne, hspelled, hle⟩ := hinv.issued token known hk
    refine ⟨hdoes, hne, hspelled, fun k => ?_⟩
    exact Nat.le_trans (hle k) hlog.length_le
  · intro i n hn
    exact Nat.le_trans (hinv.listed i n hn) hlog.length_le
  · intro cur hcur
    exact (hinv.cursor cur hcur).grow hlog fun _ _ hk => hk
  · intro tag htag
    obtain ⟨n, hn, hspelled, -⟩ := hinv.tag tag htag
    refine ⟨n, Nat.le_trans hn hlog.length_le, hspelled, ?_⟩
    intro he
    have he' : (w.log ++ [(h, v)]).length = n := he
    omega

theorem changes_kept {w w' : World ε} (hc : sv.Changes w w') (hinv : Inv sv c w) :
    Inv sv c w' ∧ ∀ i, Rely c.scope i w w' := by
  cases hc with
  | put h res hmem =>
    refine ⟨hinv.grown hmem (some res), fun i => ?_⟩
    exact ⟨List.prefix_append _ _, fun _ _ hk => hk, Nat.le_refl _, fun _ => ⟨rfl, fun _ => rfl⟩, rfl⟩
  | delete h hmem _ =>
    refine ⟨hinv.grown hmem none, fun i => ?_⟩
    exact ⟨List.prefix_append _ _, fun _ _ hk => hk, Nat.le_refl _, fun _ => ⟨rfl, fun _ => rfl⟩, rfl⟩
  | abandoned =>
    have hrow : ∀ {β : Type} (f : Scope.ScopeRow → Option β), (∀ row, f row.abandoned = f row) →
        (w.store.abandonLeases.1.syncScope.get? c.scope).bind f = (w.store.syncScope.get? c.scope).bind f := by
      intro β f hf
      show ((w.store.syncScope.mapRows fun _ row => row.abandoned).get? c.scope).bind f = _
      rw [Keyed.get?_mapRows]
      cases w.store.syncScope.get? c.scope with
      | none => rfl
      | some row => exact hf row
    have hcursor : ∀ row : Scope.ScopeRow, row.abandoned.cursor = row.cursor := by
      intro row
      unfold Scope.ScopeRow.abandoned
      split <;> rfl
    have htag : ∀ row : Scope.ScopeRow, row.abandoned.collectionTag = row.collectionTag := by
      intro row
      unfold Scope.ScopeRow.abandoned
      split <;> rfl
    refine ⟨hinv.of_parts rfl rfl rfl (hrow _ hcursor) (hrow _ htag) rfl, fun i => ?_⟩
    exact ⟨List.prefix_refl _, fun _ _ hk => hk, abandoned_token c.scope, fun _ => ⟨rfl, fun _ => rfl⟩, rfl⟩

/-! ## Every run -/

/-- A pass with nothing beside it. -/
def Mode.alone (mode : Mode) (i : Nat) : Mode := { mode with solo := some i }

theorem sound_of_run (hcol : c.collection = sv.collection) {mode : Mode} (hmode : mode.solo = none)
    {es : List (Happening (Request ε) Request.Answer (World ε) Pass)}
    {s : Together (Request ε) Request.Answer (World ε) Pass (Except PassError Outcome)}
    (hrun : Run (Together.Step (setting sv c mode).serves sv.Changes c.pass) (Together.init World.fresh) es s) :
    Inv sv c s.world ∧ ∀ pass name born step, .served pass name born step ∈ es → Safe c born.log.length step := by
  have hsolo : ∀ {i j : Nat}, mode.solo = some j → j = i := by
    intro i j hj
    rw [hmode] at hj
    exact nomatch hj
  have hsound : (setting sv c mode).Sound (fun _ _ born => Safe c born.log.length) s ∧
      ∀ e ∈ es, ∀ pass name born step, e = .served pass name born step → Safe c born.log.length step := by
    refine Setting.sound_run ?_ ?_ inv_fresh hrun
    · intro w w' hc hinv
      obtain ⟨hinv', hrely⟩ := changes_kept hc hinv
      exact ⟨hinv', fun i => ⟨hrely i, fun hs => by rw [hmode] at hs; exact nomatch hs⟩⟩
    · intro pass i w _
      exact (meets_pass (fun _ => hsolo) hcol pass w).mono fun _ _ _ => trivial
  refine ⟨hsound.1.inv, ?_⟩
  intro pass name born step hmem
  exact hsound.2 _ hmem pass name born step rfl

theorem pass_alone (hcol : c.collection = sv.collection) (mode : Mode) {i : Nat} {pass : Pass}
    {w w' : World ε} {r : Except PassError Outcome} (hinv : Inv sv c w)
    (hp : Performs ((setting sv c (mode.alone i)).serves i) (c.pass pass) w r w') :
    Inv sv c w' ∧ w'.log = w.log ∧ (mode.obliging = true → pass.seeds = true → r.isOk = true) ∧
      ∀ outcome, r = .ok outcome → OutcomeSettled c (mode.alone i) w pass.advertised outcome w' := by
  have hsolo : ∀ j, (mode.alone i).solo = some j → j = i := by
    intro j hj
    exact (Option.some.inj hj).symm
  obtain ⟨hinv', hends⟩ := (meets_pass hsolo hcol pass w).performs hinv hp
  exact ⟨hinv', hends rfl⟩

/-! ## A server that tells everything -/

/-- The answers of a server that never cuts one off. -/
def Server.ServesWhole (sv : Server) (i : Nat) (w : World ε) (q : Request ε) (a : q.Answer)
    (w' : World ε) : Prop :=
  sv.Serves i w q a w' ∧ Uncut sv q a

theorem sparing_of_uncut {i : Nat} {w : World ε} {q : Request ε} {a : q.Answer} (h : Uncut sv q a) :
    Sparing sv c i w q a := by
  cases q with
  | report token =>
    cases a with
    | error e => trivial
    | ok ms =>
      intro hcut
      have huncut : sv.truncated ms = false := h
      rw [huncut] at hcut
      exact nomatch hcut
  | store q => trivial
  | listing => trivial
  | ctag => trivial
  | members => trivial
  | multiget hrefs => trivial
  | arrivals batches => trivial

/-- No pass takes a member from the store that the server had all through the pass; and from every state
reached, one pass over the calendars that nothing interferes with ends well, and leaves the keys of
members only and every member that can be read as it now reads. -/
theorem calendar_pass_misses_nothing (sv : Server) (c : Synced ε) (hcol : c.collection = sv.collection)
    {es : List (Happening (Request ε) Request.Answer (World ε) Pass)}
    {s : Together (Request ε) Request.Answer (World ε) Pass (Except PassError Outcome)}
    (hrun : Run (Together.Step sv.ServesWhole sv.Changes c.pass) (Together.init World.fresh) es s) :
    (∀ pass name born step, .served pass name born step ∈ es → Safe c born.log.length step) ∧
    ∀ req seed i r w, Performs (fun w q a w' => sv.ServesWhole i w q a w' ∧ Obliges sv q a)
      (c.pass (.calendar req seed)) s.world r w →
      r.isOk = true ∧ w.log = s.world.log ∧ Agreed c w.log (w.held c.scope) := by
  let mode : Mode := ⟨true, false, false, none⟩
  have hserves : ∀ i w q a w', sv.ServesWhole i w q a w' → (setting sv c mode).serves i w q a w' := by
    intro i w q a w' h
    exact ⟨h.1, sparing_of_uncut h.2, (fun _ => h.2), (fun he => nomatch he), fun he => nomatch he⟩
  have hrun' : Run (Together.Step (setting sv c mode).serves sv.Changes c.pass) (Together.init World.fresh) es s := by
    refine Run.mono ?_ hrun
    intro s e _ s' hstep
    exact hstep.mono fun _ _ _ _ _ _ _ _ => hserves _ _ _ _ _
  obtain ⟨hinv, hsafe⟩ := sound_of_run hcol rfl hrun'
  refine ⟨hsafe, ?_⟩
  intro req seed i r w hp
  let obliging : Mode := ⟨true, true, false, none⟩
  have hp' : Performs ((setting sv c (obliging.alone i)).serves i) (c.pass (.calendar req seed)) s.world r w := by
    refine hp.mono ?_
    intro w q a w' ⟨h, ho⟩
    exact ⟨h.1, sparing_of_uncut h.2, (fun _ => h.2), (fun _ => ho), fun he => nomatch he⟩
  obtain ⟨-, hlog, hok, hset⟩ := pass_alone hcol obliging hinv hp'
  have hokay := hok rfl rfl
  refine ⟨hokay, hlog, ?_⟩
  cases r with
  | error e => exact nomatch hokay
  | ok outcome =>
    have hsettled := hset outcome rfl
    cases outcome with
    | unchanged => exact Settled.whole hsettled rfl
    | synced run =>
      cases run with
      | applied counts extra => exact Settled.whole hsettled rfl
      | halted reason => exact nomatch hsettled

namespace Sample

open Scope.Sample (noon request)

def tagOf (n : Nat) : String := String.ofList (List.replicate (n + 1) 'x')

theorem tagOf_inj {m n : Nat} (h : tagOf m = tagOf n) : m = n := by
  have hlen := congrArg String.length h
  simpa [tagOf] using hlen

def members : List String := ["/c/a", "/c/b"]

theorem members_apart : ∀ h ∈ members, h.isEmpty = false ∧ samePath h "/c/" = false := by decide

theorem members_distinct : ∀ h ∈ members, ∀ h' ∈ members, samePath h h' = true → h = h' := by decide

/-- Two members, and the reports of RFC 6578. -/
def server : Server where
  collection := "/c/"
  member h := members.contains h
  tagOf := tagOf
  ctagOf := tagOf
  doesSync := true
  offersCtag := false
  named h hm := (members_apart h (List.contains_iff_mem.mp hm)).1
  apart h hm := (members_apart h (List.contains_iff_mem.mp hm)).2
  distinct h h' hm hm' :=
    members_distinct h (List.contains_iff_mem.mp hm) h' (List.contains_iff_mem.mp hm')
  tags _ _ := tagOf_inj
  ctags _ _ := tagOf_inj
  either := .inl rfl

def calendar : Synced String :=
  events "a" "/c/" (fun data _ => some data) (fun _ _ event => event) (fun _ _ => .empty) fun _ => ""

def body : Resource := ⟨"BEGIN:VCALENDAR", some "1", none⟩

/-- The one member a report has, with its body. -/
def lone (h next : String) : MultiStatus := ⟨[⟨[h], none, body.props⟩], some next⟩

def putInto (w : World String) (h : String) : World String :=
  { w with log := w.log ++ [(h, some body)] }

def seed : ExpansionWindow := ⟨⟨noon, Scope.Sample.first.expiry, by decide⟩, "UTC"⟩

def first : World String := putInto .fresh "/c/a"

theorem truthful_lone {log : Log} {h : String} (next : String) (hm : h ∈ members)
    (hv : value log h = some body) : server.Truthful log (lone h next) where
  tells r hr := by
    rw [List.mem_singleton.mp hr]
    exact .member h body rfl rfl (List.contains_iff_mem.mpr hm) hv (.inl rfl)
  once := List.nodup_singleton _

theorem reports_lone {w : World String} {h token next : String} {known : String → Nat}
    (hknows : Server.Knows w token known) (huncut : server.truncated (lone h next) = false) (hquiet : ∀ h' ∈ members, h' ≠ h → QuietFrom w.log (known h') h') (hissued : w.issued next = none)
    (hspelled : next.isEmpty = false ∧ startsAsCtag next = false) :
    server.Reports w token (lone h next) next known := by
  refine ⟨rfl, hknows, fun _ => ?_, fun ht => absurd ht (Bool.eq_false_iff.mp huncut), hspelled, .inl hissued⟩
  intro h' hm hnot
  refine .inl (hquiet h' (List.contains_iff_mem.mp hm) ?_)
  rintro rfl
  exact hnot (List.mem_singleton_self h')

/-- Nothing is cut off, and nobody fails. -/
def obliging (i : Nat) (w : World String) (q : Request String) (a : q.Answer) (w' : World String) :
    Prop :=
  server.ServesWhole i w q a w' ∧ Obliges server q a

/-- A member is put while a pass that was told of the other is under way; the next pass is told of it. -/
theorem interleaved : ∃ es s, Run (Together.Step server.ServesWhole server.Changes calendar.pass)
    (Together.init World.fresh) es s ∧ s.world.log = [("/c/a", some body), ("/c/b", some body)] ∧
    ∃ r w, Performs (obliging 0) (calendar.pass (.calendar request seed)) s.world r w := by
  refine Run.reaches_later (.changed (.put "/c/a" body rfl)) ?_
  refine Run.reaches_later (.started (.calendar request seed)) ?_
  refine Run.reaches_later (.head (.ok Props.none) rfl ⟨.listing Props.none (.inl rfl), trivial⟩) ?_
  refine Run.reaches_later (.head (.ok none) rfl ⟨.store (.window _), trivial⟩) ?_
  refine Run.reaches_later (.head (.ok _) rfl ⟨.store (.granted _ _ _ noon _ _ rfl), trivial⟩) ?_
  refine Run.reaches_later (.head _ rfl ⟨.store (.windowSet _ _), trivial⟩) ?_
  refine Run.reaches_later (.head (.ok ()) rfl ⟨.store (.released _), trivial⟩) ?_
  refine Run.reaches_later (.head (.ok _) rfl ⟨.store (.granted _ _ _ noon _ _ rfl), trivial⟩) ?_
  refine Run.reaches_later (.head (.ok (lone "/c/a" "t1")) rfl ⟨.report _ _ "t1" (fun _ => 0) ?_ rfl
    (reports_lone (by exact rfl) (by decide) ?_ rfl (by decide)), ?_⟩) ?_
  · exact truthful_lone _ (by decide) rfl
  · decide
  · show server.truncated (lone "/c/a" "t1") = false
    decide
  refine Run.reaches_later (.changed (.put "/c/b" body rfl)) ?_
  refine Run.reaches_later (.head _ rfl ⟨.store (.applied _ _), trivial⟩) ?_
  refine Run.reaches_later (.head (.ok ()) rfl ⟨.store (.released _), trivial⟩) ?_
  refine ⟨[], _, .nil _, rfl, ?_⟩
  refine performs_ask (.ok Props.none) ⟨⟨.listing Props.none (.inl rfl), trivial⟩, rfl⟩ ?_
  refine performs_ask (.ok (some _)) ⟨⟨.store (.window _), trivial⟩, rfl⟩ ?_
  refine performs_ask (.ok _) ⟨⟨.store (.granted _ _ _ noon _ _ rfl), trivial⟩, rfl⟩ ?_
  refine performs_ask (.ok (lone "/c/b" "t2")) ⟨⟨.report _ _ "t2" _ ?_ rfl
    (reports_lone (by exact rfl) (by decide) ?_ rfl (by decide)), ?_⟩, ?_⟩ ?_
  · exact truthful_lone _ (by decide) rfl
  · decide
  · show server.truncated (lone "/c/b" "t2") = false
    decide
  · exact .inl ⟨_, rfl, rfl⟩
  refine performs_ask _ ⟨⟨.store (.applied _ _), trivial⟩, fun _ h => nomatch h⟩ ?_
  refine performs_ask (.ok ()) ⟨⟨.store (.released _), trivial⟩, rfl⟩ ?_
  exact ⟨_, _, .done _ _⟩

end Sample

open Sample in
theorem calendar_pass_misses_nothing_interleaved : ∃ es s r w,
    Run (Together.Step server.ServesWhole server.Changes calendar.pass) (Together.init World.fresh) es s ∧
    s.world.log = [("/c/a", some body), ("/c/b", some body)] ∧
    Performs (obliging 0) (calendar.pass (.calendar Scope.Sample.request seed)) s.world r w ∧
    r.isOk = true ∧ w.log = s.world.log ∧ Agreed calendar w.log (w.held calendar.scope) := by
  obtain ⟨es, s, hrun, hlog, r, w, hp⟩ := interleaved
  have hmissed := calendar_pass_misses_nothing server calendar rfl hrun
  exact ⟨es, s, r, w, hrun, hlog, hp, hmissed.2 Scope.Sample.request seed 0 r w hp⟩

end Dav
end SyncEngine
