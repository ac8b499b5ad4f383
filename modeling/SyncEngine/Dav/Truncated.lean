import SyncEngine.Dav.Missed

/-!
# Answers that are cut off

A server may tell a part of its changes and say so in the collection's own entry, with a token for what it told.  The
adapters do not look at that entry: a cut-off answer to a request without a token is taken for all there is, and the
listing's tag is recorded with it.  Where neither happens nothing is lost, for every token is told something the last
one was not.
-/

namespace SyncEngine
namespace Dav

open Journal
open Setting (Performs performs_ask)

variable {ε : Type} {sv : Server} {c : Synced ε}

/-! ## What is still to be told -/

def behind (log : Log) (known : String → Nat) : Nat :=
  log.countP fun change => !decide (QuietFrom log (known change.1) change.1)

/-- How much the store's cursor has still to be told.  One that is no token has everything before it. -/
def owed (scope : SyncScope) (w : World ε) : Nat :=
  match (w.cursor scope).bind w.issued with
  | none => w.log.length + 1
  | some known => behind w.log known

theorem behind_le_length (log : Log) (known : String → Nat) : behind log known ≤ log.length := List.countP_le_length

variable {known : String → Nat}

theorem behind_lt {log : Log} {known' : String → Nat}
    (hkeeps : ∀ k, QuietFrom log (known k) k → QuietFrom log (known' k) k)
    (hnew : ∃ k, ¬QuietFrom log (known k) k ∧ QuietFrom log (known' k) k) :
    behind log known' < behind log known := by
  obtain ⟨k, hnot, hquiet⟩ := hnew
  obtain ⟨change, hchange, hkey⟩ : ∃ change ∈ log, change.1 = k := by
    by_contra hnone
    refine hnot ?_
    intro change hchange he
    exact hnone ⟨change, List.mem_of_mem_drop hchange, he⟩
  obtain ⟨before, after, hsplit⟩ := List.append_of_mem hchange
  have hmono : ∀ part : Log, part.countP (fun e => !decide (QuietFrom log (known' e.1) e.1)) ≤
        part.countP (fun e => !decide (QuietFrom log (known e.1) e.1)) := by
    intro part
    refine List.countP_mono_left ?_
    intro e _ he
    have hnot' : ¬QuietFrom log (known' e.1) e.1 := by simpa using he
    simpa using fun hq => hnot' (hkeeps e.1 hq)
  have hbefore := hmono before
  have hafter := hmono after
  subst hkey
  have hgone : (!decide (QuietFrom log (known' change.1) change.1)) = false := by simpa using hquiet
  have hwas : (!decide (QuietFrom log (known change.1) change.1)) = true := by simpa using hnot
  have hcount : ∀ p : String × Option Resource → Bool,
      log.countP p = before.countP p + (after.countP p + if p change then 1 else 0) := by
    intro p
    rw [hsplit, List.countP_append, List.countP_cons]
  show log.countP _ < log.countP _
  rw [hcount, hcount, hgone, hwas]
  simp only [Bool.false_eq_true, if_false, if_true]
  omega

/-! ## Undisturbed passes -/

/-- The server honours its tokens, nobody fails, and no answer is cut off where that is not seen. -/
def Server.ServesOn (sv : Server) (c : Synced ε) (i : Nat) (w : World ε) (q : Request ε) (a : q.Answer)
    (w' : World ε) : Prop :=
  sv.Serves i w q a w' ∧ Sparing sv c i w q a ∧ Obliges sv q a ∧ Honours q a

/-- A pass of the calendars, or of the contacts of an account that has address books. -/
def Pass.syncs (pass : Pass) : Bool := pass.seeds && pass.advertised

/-- One such pass, with nothing beside it. -/
def Follows (sv : Server) (c : Synced ε) (w : World ε) (pass : Nat × Pass) (w' : World ε) : Prop :=
  pass.2.syncs = true ∧ ∃ r, Performs (sv.ServesOn c pass.1) (c.pass pass.2) w r w'

variable {i : Nat} {w w' : World ε} {token : String}

theorem Server.Serves.issued {q : Request ε} {a : q.Answer} (h : sv.Serves i w q a w')
    (hk : w.issued token = some known) : w'.issued token = some known := by
  cases h with
  | store hs => cases hs <;> exact hk
  | report t ms next known' _ _ hr =>
    show (if token = next then some _ else w.issued token) = some known
    by_cases he : token = next
    · rw [if_pos he]
      rcases hr.fresh with hnone | hsome
      · rw [he, hnone] at hk
        exact nomatch hk
      · rw [← hsome, ← he, hk]
    · rw [if_neg he, hk]
  | _ => exact hk

theorem performs_issued {serves : World ε → (q : Request ε) → q.Answer → World ε → Prop}
    (hserves : ∀ w q a w', serves w q a w' → sv.Serves i w q a w') {α : Type} {d : Talk ε α} {r : α} (hp : Performs serves d w r w')
    (hk : w.issued token = some known) : w'.issued token = some known := by
  induction hp with
  | done a w => exact hk
  | ask a hs _ ih => exact ih ((hserves _ _ _ _ hs).issued hk)

/-- What one pass leaves: an up-to-date store, or less to be told. -/
theorem follows_step (hcol : c.collection = sv.collection) {pass : Nat × Pass}
    (hinv : Inv sv c w) (h : Follows sv c w pass w') :
    Inv sv c w' ∧ (Agreed c w'.log (w'.held c.scope) ∨ owed c.scope w' < owed c.scope w) ∧
      (Agreed c w.log (w.held c.scope) → Agreed c w'.log (w'.held c.scope)) := by
  obtain ⟨hsyncs, r, hp⟩ := h
  obtain ⟨hseeds, hadv⟩ := Bool.and_eq_true_iff.mp hsyncs
  let mode : Mode := ⟨false, true, true, none⟩
  have hp' : Performs ((setting sv c (mode.alone pass.1)).serves pass.1) (c.pass pass.2) w r w' := by
    refine hp.mono ?_
    intro w q a w' hs
    exact ⟨hs.1, hs.2.1, (fun he => nomatch he), (fun _ => hs.2.2.1), fun _ => hs.2.2.2⟩
  obtain ⟨hinv', hlog, hok, hset⟩ := pass_alone hcol mode hinv hp'
  have hsettled : Settled c (mode.alone pass.1) w w' := by
    cases r with
    | error e => exact nomatch hok rfl hseeds
    | ok outcome =>
      have hends := hset outcome rfl
      cases outcome with
      | unchanged => exact hends
      | synced run =>
        cases run with
        | applied counts extra => exact hends
        | halted reason =>
          rw [hadv] at hends
          exact nomatch hends
  refine ⟨hinv', ?_, hsettled.keeps⟩
  rcases hsettled.advances rfl with hagreed | ⟨next, hnext, known', hknown', hahead⟩
  · exact .inl hagreed
  · right
    have howed' : owed c.scope w' = behind w.log known' := by rw [owed, hnext, Option.bind_some, hknown', hlog]
    rw [howed']
    cases hcur : w.cursor c.scope with
    | none =>
      have howed : owed c.scope w = w.log.length + 1 := by rw [owed, hcur]; rfl
      rw [howed]
      exact Nat.lt_succ_of_le (behind_le_length w.log known')
    | some cur =>
      cases hissued : w.issued cur with
      | none =>
        have howed : owed c.scope w = w.log.length + 1 := by rw [owed, hcur, Option.bind_some, hissued]
        rw [howed]
        exact Nat.lt_succ_of_le (behind_le_length w.log known')
      | some known =>
        have howed : owed c.scope w = behind w.log known := by rw [owed, hcur, Option.bind_some, hissued]
        rw [howed]
        rcases hahead with hnone | ⟨cur', known₁, hcur', hknown₁, hkeeps, hnew⟩
        · rw [hcur] at hnone
          exact nomatch hnone
        · rw [hcur] at hcur'
          rw [← Option.some.inj hcur', performs_issued (fun _ _ _ _ hs => hs.1) hp hissued] at hknown₁
          rw [hlog, ← Option.some.inj hknown₁] at hkeeps hnew
          exact behind_lt hkeeps hnew

theorem agreed_of_passes (hcol : c.collection = sv.collection)
    {passes : List (Nat × Pass)} (hrun : Run (Follows sv c) w passes w') (hinv : Inv sv c w)
    (henough : Agreed c w.log (w.held c.scope) ∨ owed c.scope w < passes.length) :
    Agreed c w'.log (w'.held c.scope) := by
  induction hrun with
  | nil w =>
    rcases henough with hagreed | hlt
    · exact hagreed
    · exact absurd hlt (Nat.not_lt_zero _)
  | cons hstep _ ih =>
    obtain ⟨hinv₁, hnext, hkeeps⟩ := follows_step hcol hinv hstep
    refine ih hinv₁ ?_
    rcases henough with hagreed | hlt
    · exact .inl (hkeeps hagreed)
    · rcases hnext with hagreed | hless
      · exact .inl hagreed
      · right
        have hlength : ∀ {e : Nat × Pass} {es : List (Nat × Pass)}, (e :: es).length = es.length + 1 :=
          rfl
        rw [hlength] at hlt
        omega

theorem owed_le (scope : SyncScope) (w : World ε) : owed scope w ≤ w.log.length + 1 := by
  unfold owed
  split
  · exact Nat.le_refl _
  · exact Nat.le_succ_of_le (behind_le_length _ _)

def Spared (sv : Server) (c : Synced ε) :
    Happening (Request ε) Request.Answer (World ε) Pass → Prop
  | .served _ name _ step => Sparing sv c name step.before step.exchange.request step.exchange.answer
  | _ => True

/-- No pass takes a member from the store that the server had all through the pass; and from every state
reached, more passes that nothing interferes with than there were changes leave the keys of members only
and every member that can be read as it now reads. -/
theorem truncated_answers_lose_nothing (sv : Server) (c : Synced ε) (hcol : c.collection = sv.collection)
    {es : List (Happening (Request ε) Request.Answer (World ε) Pass)}
    {s : Together (Request ε) Request.Answer (World ε) Pass (Except PassError Outcome)}
    (hrun : Run (Together.Step sv.Serves sv.Changes c.pass) (Together.init World.fresh) es s)
    (hspared : ∀ e ∈ es, Spared sv c e) :
    (∀ pass name born step, .served pass name born step ∈ es → Safe c born.log.length step) ∧
    ∀ passes w, Run (Follows sv c) s.world passes w → s.world.log.length + 1 < passes.length →
      Agreed c w.log (w.held c.scope) := by
  let mode : Mode := ⟨false, false, false, none⟩
  have hrun' : Run (Together.Step (setting sv c mode).serves sv.Changes c.pass) (Together.init World.fresh) es s := by
    refine Run.mono ?_ hrun
    intro s e he s' hstep
    refine hstep.mono ?_
    intro kind name born w q a w' heq hs
    have hspare := hspared e he
    rw [heq] at hspare
    exact ⟨hs, hspare, (fun h => nomatch h), (fun h => nomatch h), fun h => nomatch h⟩
  obtain ⟨hinv, hsafe⟩ := sound_of_run hcol rfl hrun'
  refine ⟨hsafe, ?_⟩
  intro passes w hpasses hmany
  refine agreed_of_passes hcol hpasses hinv (.inr ?_)
  exact Nat.lt_of_le_of_lt (owed_le c.scope s.world) hmany

namespace Sample

open Scope.Sample (noon request)

def addressBook : Synced String :=
  contacts "a" "/c/" (fun data _ => some data) (fun _ card => card) fun _ => ""

/-- The collection's own entry, for an answer that was cut off. -/
def ownEntry : DavResponse := ⟨["/c/"], some 507, Props.none⟩

/-- The same report, cut off after its one member. -/
def cutAfter (h next : String) : MultiStatus := ⟨[⟨[h], none, body.props⟩, ownEntry], some next⟩

def rejection : CalDavError := .status 403 ["valid-sync-token"] false

variable {h : String}

theorem truthful_cutAfter {log : Log} (next : String) (hm : h ∈ members)
    (hv : value log h = some body) : server.Truthful log (cutAfter h next) where
  tells r hr := by
    rcases List.mem_cons.mp hr with rfl | hr
    · exact .member h body rfl rfl (List.contains_iff_mem.mpr hm) hv (.inl rfl)
    · rw [List.mem_singleton.mp hr]
      exact .own "/c/" rfl rfl rfl
  once := by
    have hapart := (members_apart h hm).2
    have hne : pathKey h ≠ pathKey "/c/" := by simpa [samePath] using hapart
    show [pathKey h, pathKey "/c/"].Nodup
    simpa using hne

variable {w : World String} {next : String}

theorem reports_cutAfter (hm : h ∈ members) (hnews : ¬QuietFrom w.log 0 h) (hissued : w.issued next = none)
    (hspelled : next.isEmpty = false ∧ startsAsCtag next = false) :
    server.Reports w "" (cutAfter h next) next fun _ => 0 := by
  have hcut : server.truncated (cutAfter h next) = true := by
    have hown : (samePath ownEntry.href server.collection && ownEntry.status == some 507) = true := by decide
    exact List.any_eq_true.mpr ⟨ownEntry, by simp [cutAfter], hown⟩
  refine ⟨rfl, rfl, fun he => ?_, fun _ => ?_, hspelled, .inl hissued⟩
  · rw [hcut] at he
    exact nomatch he
  · exact ⟨h, by simp [MultiStatus.names, cutAfter], List.contains_iff_mem.mpr hm, hnews⟩

def both : World String := putInto first "/c/b"

/-- A report with nothing to tell. -/
def nothing (next : String) : MultiStatus := ⟨[], some next⟩

/-- From `w` on, `n` passes follow one another. -/
def Passes (n : Nat) (w : World String) : Prop :=
  ∃ passes w', Run (Follows server addressBook) w passes w' ∧ passes.length = n

/-- As `Passes`, after what is left of a pass. -/
def PassesAfter (n : Nat) (rest : Talk String (Except PassError Outcome)) (w : World String) : Prop :=
  ∃ r w', Performs (server.ServesOn addressBook 0) rest w r w' ∧ Passes n w'

variable {n : Nat}

theorem passes_cons (h : PassesAfter n (addressBook.pass (.contacts request true)) w) : Passes (n + 1) w := by
  obtain ⟨r, w₁, hp, passes, w', hrun, hlen⟩ := h
  refine ⟨(0, .contacts request true) :: passes, w', .cons ⟨rfl, r, hp⟩ hrun, ?_⟩
  rw [List.length_cons, hlen]

theorem passesAfter_ask {w₁ : World String} {q : Request String}
    {next : q.Answer → Talk String (Except PassError Outcome)} (a : q.Answer)
    (hs : server.ServesOn addressBook 0 w q a w₁) (h : PassesAfter n (next a) w₁) :
    PassesAfter n (.ask q next) w := by
  obtain ⟨r, w', hp, hpasses⟩ := h
  exact ⟨r, w', .ask a hs hp, hpasses⟩

variable {token : String} {known : String → Nat}

theorem servesOn_report (ms : MultiStatus) (htruthful : server.Truthful w.log ms) (htoken : ms.syncToken = some next)
    (huncut : server.truncated ms = false) (hreports : server.Reports w token ms next known) :
    server.ServesOn addressBook 0 w (.report token) (.ok ms) (w.issue next (server.told w.log known ms)) := by
  refine ⟨.report token ms next known htruthful htoken hreports, ?_, ?_, trivial⟩
  · exact sparing_of_uncut huncut
  · exact .inl ⟨ms, rfl, by rw [htoken]; rfl⟩

theorem servesOn_nothing (hknows : Server.Knows w token known) (hknown : ∀ h ∈ members, QuietFrom w.log (known h) h)
    (hissued : w.issued next = none) (hspelled : next.isEmpty = false ∧ startsAsCtag next = false) :
    server.ServesOn addressBook 0 w (.report token) (.ok (nothing next))
      (w.issue next (server.told w.log known (nothing next))) := by
  refine servesOn_report (nothing next) ⟨(fun r hr => nomatch hr), List.nodup_nil⟩ rfl rfl ?_
  refine ⟨rfl, hknows, fun _ => ?_, (fun h => nomatch h), hspelled, .inl hissued⟩
  intro h hm _
  exact .inl (hknown h (List.contains_iff_mem.mp hm))

theorem caughtUp : Passes 4 both := by
  refine passes_cons ?_
  refine passesAfter_ask (.ok _) ⟨.store (.granted _ _ _ noon _ _ rfl), trivial, rfl, trivial⟩ ?_
  refine passesAfter_ask (.ok (cutAfter "/c/a" "t1"))
    ⟨.report _ _ "t1" (fun _ => 0) ?_ rfl ?_, ?_, .inl ⟨_, rfl, rfl⟩, trivial⟩ ?_
  · exact truthful_cutAfter _ (by decide) rfl
  · exact reports_cutAfter (by decide) (by decide) rfl (by decide)
  · exact fun _ _ => ⟨(fun _ _ hk => nomatch hk), (fun h => nomatch h)⟩
  refine passesAfter_ask _ ⟨.store (.applied _ _), trivial, (fun _ h => nomatch h), trivial⟩ ?_
  refine passesAfter_ask (.ok ()) ⟨.store (.released _), trivial, rfl, trivial⟩ ?_
  refine ⟨_, _, .done _ _, passes_cons ?_⟩
  refine passesAfter_ask (.ok _) ⟨.store (.granted _ _ _ noon _ _ rfl), trivial, rfl, trivial⟩ ?_
  refine passesAfter_ask (.ok (lone "/c/b" "t2")) (servesOn_report _ ?_ rfl rfl
    (reports_lone (by exact rfl) (by decide) ?_ rfl (by decide))) ?_
  · exact truthful_lone _ (by decide) rfl
  · decide
  refine passesAfter_ask _ ⟨.store (.applied _ _), trivial, (fun _ h => nomatch h), trivial⟩ ?_
  refine passesAfter_ask (.ok ()) ⟨.store (.released _), trivial, rfl, trivial⟩ ?_
  refine ⟨_, _, .done _ _, passes_cons ?_⟩
  refine passesAfter_ask (.ok _) ⟨.store (.granted _ _ _ noon _ _ rfl), trivial, rfl, trivial⟩ ?_
  refine passesAfter_ask (.ok (nothing "t3")) (servesOn_nothing rfl (by decide) rfl (by decide)) ?_
  refine passesAfter_ask _ ⟨.store (.applied _ _), trivial, (fun _ h => nomatch h), trivial⟩ ?_
  refine passesAfter_ask (.ok ()) ⟨.store (.released _), trivial, rfl, trivial⟩ ?_
  refine ⟨_, _, .done _ _, passes_cons ?_⟩
  refine passesAfter_ask (.ok _) ⟨.store (.granted _ _ _ noon _ _ rfl), trivial, rfl, trivial⟩ ?_
  refine passesAfter_ask (.ok (nothing "t4")) (servesOn_nothing rfl (by decide) rfl (by decide)) ?_
  refine passesAfter_ask _ ⟨.store (.applied _ _), trivial, (fun _ h => nomatch h), trivial⟩ ?_
  refine passesAfter_ask (.ok ()) ⟨.store (.released _), trivial, rfl, trivial⟩ ?_
  exact ⟨_, _, .done _ _, [], _, .nil _, rfl⟩

end Sample

open Sample in
theorem truncated_answers_lose_nothing_afterTwoPuts : ∃ passes w,
    Run (Follows server addressBook) both passes w ∧ passes.length = 4 ∧
      Agreed addressBook w.log (w.held addressBook.scope) := by
  obtain ⟨passes, w, hpasses, hlen⟩ := caughtUp
  let start : Together (Request String) Request.Answer (World String) Pass (Except PassError Outcome) :=
    Together.init World.fresh
  have hrun : Run (Together.Step server.Serves server.Changes addressBook.pass) start
      [.changed, .changed] { start with world := both } :=
    .cons (.changed (.put "/c/a" body rfl)) (.cons (.changed (.put "/c/b" body rfl)) (.nil _))
  have hspared : ∀ e ∈ [Happening.changed, .changed], Spared server addressBook e := by
    intro e he
    rcases List.mem_cons.mp he with rfl | he
    · trivial
    · rw [List.mem_singleton.mp he]
      trivial
  have hloses := truncated_answers_lose_nothing server addressBook rfl hrun hspared
  refine ⟨passes, w, hpasses, hlen, hloses.2 passes w hpasses ?_⟩
  rw [hlen]
  decide

namespace Sample

open Scope.Sample (noon request)

/-- A pass takes a contact from the store that was there all through it. -/
def Drops (e : Happening (Request String) Request.Answer (World String) Pass) : Prop :=
  ∃ pass name born step, e = .served pass name born step ∧ ¬Safe addressBook born.log.length step

theorem dropped : ∃ es s, Run (Together.Step server.Serves server.Changes addressBook.pass)
    (Together.init World.fresh) es s ∧ ∃ e ∈ es, Drops e := by
  refine Run.meets_later (.changed (.put "/c/a" body rfl)) ?_
  refine Run.meets_later (.started (.contacts request true)) ?_
  refine Run.meets_later (.head (.ok _) rfl (.store (.granted _ _ _ noon _ _ rfl))) ?_
  refine Run.meets_later (.head (.ok (lone "/c/a" "t1")) rfl (.report _ _ "t1" (fun _ => 0) ?_ rfl
    (reports_lone (by exact rfl) (by decide) ?_ rfl (by decide)))) ?_
  · exact truthful_lone _ (by decide) rfl
  · decide
  refine Run.meets_later (.head _ rfl (.store (.applied _ _))) ?_
  refine Run.meets_later (.head (.ok ()) rfl (.store (.released _))) ?_
  refine Run.meets_later (.changed (.put "/c/b" body rfl)) ?_
  refine Run.meets_later (.started (.contacts request true)) ?_
  refine Run.meets_later (.head (.ok _) rfl (.store (.granted _ _ _ noon _ _ rfl))) ?_
  refine Run.meets_later (.head (.error rejection) rfl (.reportFailed _ rejection)) ?_
  refine Run.meets_later (.head (.ok (cutAfter "/c/b" "t2")) rfl (.report _ _ "t2" (fun _ => 0) ?_ rfl ?_)) ?_
  · exact truthful_cutAfter _ (by decide) rfl
  · exact reports_cutAfter (by decide) (by decide) rfl (by decide)
  refine Run.meets_now (.head _ rfl (.store (.applied _ _))) ⟨_, _, _, _, rfl, ?_⟩
  intro hsafe
  have hgone := (hsafe "/c/a" (by decide) (by decide)).eq_value (by decide)
  exact absurd hgone (by decide)

end Sample

/-- The adapters take a cut-off answer for all there is. -/
theorem truncated_answers_lose_a_contact : ¬ ∀ (sv : Server) (c : Synced String)
    (es : List (Happening (Request String) Request.Answer (World String) Pass))
    (s : Together (Request String) Request.Answer (World String) Pass (Except PassError Outcome)),
    c.collection = sv.collection →
    Run (Together.Step sv.Serves sv.Changes c.pass) (Together.init World.fresh) es s →
    ∀ pass name born step, .served pass name born step ∈ es → Safe c born.log.length step := by
  intro h
  obtain ⟨es, s, hrun, e, he, pass, name, born, step, rfl, hnot⟩ := Sample.dropped
  exact hnot (h Sample.server Sample.addressBook es s rfl hrun pass name born step he)

end Dav
end SyncEngine
