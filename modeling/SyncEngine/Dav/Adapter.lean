import SyncEngine.Dav.Brings

/-!
# The adapter between other passes

Each request of the adapter's program with what it tells, and the program put together from them: from the
cursor of its claim, the adapter brings an update that `Brings` says is good, whichever way it reads the
collection.
-/

namespace SyncEngine
namespace Dav

open Journal
open Setting
open Drivers (ScopeSync)

variable {ε : Type} {sv : Server} {c : Synced ε} {mode : Mode} {i t lo : Nat}
variable {cursor : Option SyncState} {held : ProviderKey → Option ε} {w : World ε}

/-! ## Tokens -/

variable {known : String → Nat}

theorem knows_le (hinv : Inv sv c w) {token : String}
    (h : Server.Knows w token known) (k : String) : known k ≤ w.log.length := by
  unfold Server.Knows at h
  split at h
  · rw [h]
    exact Nat.zero_le _
  · exact (hinv.issued token known h).2.2.2 k

variable {next : String} {ms : MultiStatus}

theorem issued_kept {token : String} (hr : sv.Reports w token ms next known) (t : String) (known' : String → Nat)
    (h : w.issued t = some known') :
    (w.issue next (sv.told w.log known ms)).issued t = some known' := by
  show (if t = next then some (sv.told w.log known ms) else w.issued t) = some known'
  by_cases he : t = next
  · rw [if_pos he]
    rw [he] at h
    rcases hr.fresh with hf | hf
    · rw [hf] at h
      exact nomatch h
    · rw [← hf, h]
  · rw [if_neg he, h]

theorem Inv.reported (hinv : Inv sv c w) {token : String} (hr : sv.Reports w token ms next known) :
    Inv sv c (w.issue next (sv.told w.log known ms)) where
  members := hinv.members
  issued := by
    intro t known' h
    by_cases he : t = next
    · have hsome : some (sv.told w.log known ms) = some known' := by
        rw [← h]
        exact (if_pos he).symm
      rw [← Option.some.inj hsome, he]
      refine ⟨hr.does, hr.spelled.1, hr.spelled.2, ?_⟩
      intro k
      have hle := knows_le hinv hr.knows k
      show (if sv.truncated ms && !ms.names.contains k then known k else w.log.length) ≤ w.log.length
      split <;> omega
    · have hold : w.issued t = some known' := by
        rw [← h]
        exact (if_neg he).symm
      exact hinv.issued t known' hold
  listed := hinv.listed
  cursor cur hcur := (hinv.cursor cur hcur).grow (List.prefix_refl _) (issued_kept hr)
  tag := hinv.tag

/-- What is known of an answered report. -/
structure Reported (sv : Server) (c : Synced ε) (mode : Mode) (i t lo : Nat)
    (cursor : Option SyncState) (held : ProviderKey → Option ε) (token : String)
    (a : Except CalDavError MultiStatus) (w : World ε) : Prop where
  under : Under sv c mode i t lo cursor held w
  obliges : mode.obliging = true → Obliges (ε := ε) sv (.report token) a
  honours : mode.honouring = true → Honours (ε := ε) (.report token) a
  truthful : ∀ ms, a = .ok ms → sv.Truthful w.log ms
  answered : ∀ ms, a = .ok ms → ∀ next, ms.syncToken = some next → ∃ known,
    Answered sv c mode i t lo cursor held w.log.length token.isEmpty (sv.truncated ms) ms.names known
      next w

theorem Under.covers (hu : Under sv c mode i t lo cursor held w) {token : String}
    (hcur : cursor = some token) (hk : w.issued token = some known) (k : String) :
    CoversAt (Server.reads c.reader) w.log (known k) k (held k) := by
  cases hu.stands token hcur with
  | ctag n hspelled _ _ _ =>
    have hno := (hu.inv.issued token known hk).2.2.1
    rw [hspelled] at hno
    simp [startsAsCtag, ctagCursor, ctagMark] at hno
  | token known' hk' _ hcovers =>
    rw [hk] at hk'
    rw [Option.some.inj hk']
    exact hcovers k

theorem answered_of_reports (hu : Under sv c mode i t lo cursor held w) {token : String} (hr : sv.Reports w token ms next known)
    (htoken : ms.syncToken = some next) (hspares : Sparing sv c i w (.report token) (.ok ms))
    (huncut : mode.whole = true → sv.truncated ms = false)
    (hcur : token.isEmpty = false → cursor = some token)
    (hfresh : token.isEmpty = true → mode.honouring = true → cursor = none) :
    Answered sv c mode i t lo cursor held w.log.length token.isEmpty (sv.truncated ms) ms.names known
      next (w.issue next (sv.told w.log known ms)) := by
  have hknows := hr.knows
  unfold Server.Knows at hknows
  refine ⟨⟨hu.since, Nat.le_refl _, knows_le hu.inv hr.knows, ?_, ?_, ?_, hu.inv.listed i⟩,
    if_pos rfl, ?_, hfresh, ?_, ?_⟩
  · by_cases he : token.isEmpty = true
    · rw [if_pos he] at hknows
      exact .inl ⟨he, fun k => by rw [hknows]⟩
    · rw [if_neg he] at hknows
      have he' := Bool.eq_false_iff.mpr he
      exact .inr ⟨he', hu.covers (hcur he') hknows⟩
  · intro hcut k hmem hk
    show QuietFrom (w.log.take w.log.length) (known k) k ∨
      (valueAt w.log (known k) k = none ∧ valueAt w.log w.log.length k = none)
    rw [List.take_length, valueAt_length]
    exact hr.complete hcut k hmem hk
  · intro hcut he ht k hsome hv
    have hspared := (hspares hcut (by rw [htoken]; rfl)).1 he k
    rw [(hu.mine ht).2] at hspared
    refine hspared hsome ?_
    have hv' : valueAt w.log w.log.length k ≠ none := hv
    rwa [valueAt_length] at hv'
  · intro he
    rw [he, if_neg Bool.false_ne_true] at hknows
    exact ⟨token, hcur he, issued_kept hr token known hknows⟩
  · intro hcut
    obtain ⟨k, hk, -, hnew⟩ := hr.news hcut
    refine ⟨k, hk, ?_⟩
    show ¬QuietFrom (w.log.take w.log.length) (known k) k
    rwa [List.take_length]
  · intro hcut
    refine ⟨?_, (hspares hcut (by rw [htoken]; rfl)).2⟩
    by_contra hw
    rw [huncut (by simpa using hw)] at hcut
    exact nomatch hcut

theorem meets_report (hsolo : ∀ j, mode.solo = some j → j = i) {token : String} (hw : Under sv c mode i t lo cursor held w)
    (hcur : token.isEmpty = false → cursor = some token)
    (hfresh : token.isEmpty = true → mode.honouring = true → cursor = none) :
    (setting sv c mode).Meets i (Safe c lo) (Reported sv c mode i t lo cursor held token) (send (.report token)) w := by
  refine meets_request ?_
  intro w₁ hrely hinv a w₂ ⟨hserves, hspares, huncut, hobliges, hhonours⟩
  have hu := lasts_under w w₁ hrely hinv hw
  cases hserves with
  | reportFailed _ e =>
    refine ⟨hinv, fun j _ => (setting sv c mode).refl j w₁, safe_of_held rfl _, hu, hobliges, hhonours, ?_, ?_⟩
    · exact fun _ he => nomatch he
    · exact fun _ he => nomatch he
  | reportTokenless _ ms htrue hnone =>
    refine ⟨hinv, fun j _ => (setting sv c mode).refl j w₁, safe_of_held rfl _, hu, hobliges, hhonours, ?_, ?_⟩
    · intro ms' he
      rw [← Except.ok.inj he]
      exact htrue
    · intro ms' he next hnext
      rw [← Except.ok.inj he, hnone] at hnext
      exact nomatch hnext
  | report _ ms next known htrue htoken hr =>
    have hinv₂ := hinv.reported hr
    have hothers : ∀ j, Rely c.scope j w₁ (w₁.issue next (sv.told w₁.log known ms)) := by
      intro j
      exact ⟨List.prefix_refl _, issued_kept hr, Nat.le_refl _, fun _ => ⟨rfl, fun _ => rfl⟩, rfl⟩
    refine ⟨hinv₂, ?_, ?_, ?_, hobliges, hhonours, ?_, ?_⟩
    · exact fun j hj => ⟨hothers j, fun hs => absurd (hsolo j hs) hj⟩
    · exact safe_of_held rfl ⟨.report token, .ok ms⟩
    · refine ⟨hinv₂, hu.since, hu.lease, hu.mine, ?_, hu.alone⟩
      intro cur hc
      exact (hu.stands cur hc).grow (List.prefix_refl _) (issued_kept hr)
    · intro ms' he
      rw [← Except.ok.inj he]
      exact htrue
    · intro ms' he next' hnext
      obtain rfl := Except.ok.inj he
      rw [htoken] at hnext
      obtain rfl := Option.some.inj hnext
      exact ⟨known, answered_of_reports hu hr htoken hspares huncut hcur hfresh⟩

/-! ## Reading a report -/

theorem meets_readReport {token : String} (hr : Reported sv c mode i t lo cursor held token (.ok ms) w)
    (htoken : mode.obliging = true → ms.syncToken.isSome = true) :
    (setting sv c mode).Meets i (Safe c lo)
      (Ends mode (Under sv c mode i t lo cursor held) (Brought sv c mode i t lo cursor held))
      (readReport c.reader sv.collection c.tokenless ms token.isEmpty).run w := by
  let C : World ε → Prop := fun w' => Under sv c mode i t lo cursor held w' ∧
    ∀ next, ms.syncToken = some next → ∃ known, Answered sv c mode i t lo cursor held w.log.length
      token.isEmpty (sv.truncated ms) ms.names known next w'
  have hC : Lasts sv c mode i C := by
    intro w₁ w₂ hrely hinv ⟨hu, ha⟩
    refine ⟨lasts_under w₁ w₂ hrely hinv hu, ?_⟩
    intro next hnext
    obtain ⟨known, hans⟩ := ha next hnext
    exact ⟨known, hans.lasts hu hrely⟩
  have htrue : sv.Truthful (w.log.take w.log.length) ms := by
    rw [List.take_length]
    exact hr.truthful ms rfl
  refine meets_bind_except ((meets_fillBodies hC ms ⟨hr.under, hr.answered ms rfl⟩ (Nat.le_refl _) htrue).mono ?_)
  intro r w' ⟨⟨hu, ha⟩, hok, hends⟩
  cases r with
  | error e => exact ⟨hu, hok, fun _ he => nomatch he⟩
  | ok ms' =>
    obtain ⟨htok, hnames, hfilled⟩ := hends ms' rfl
    dsimp only
    cases hnext : ms'.syncToken with
    | none =>
      refine ⟨hu, ?_, fun _ he => nomatch he⟩
      intro ho
      have hsome := htoken ho
      rw [← htok, hnext] at hsome
      exact nomatch hsome
    | some next =>
      refine ⟨hu, fun _ => rfl, ?_⟩
      intro sync he
      obtain rfl := Except.ok.inj he
      refine ⟨hu, ?_⟩
      intro ht
      obtain ⟨known, hans⟩ := ha next (by rw [← htok, hnext])
      rw [← hnames] at hans
      exact hans.brings hu hfilled ht

/-! ## Reading by the CTag -/

theorem startsAsCtag_ctagCursor (ctag : String) : startsAsCtag (ctagCursor ctag) = true := by
  simp [startsAsCtag, ctagCursor, ctagMark]

theorem ctagCursor_injective {a b : String} (h : ctagCursor a = ctagCursor b) : a = b := by
  have hlist := congrArg String.toList h
  simp only [ctagCursor, String.toList_append] at hlist
  exact String.toList_inj.mp (List.append_cancel_left hlist)

theorem brings_unchanged (hu : Under sv c mode i t lo cursor held w)
    (hcur : cursor = some (ctagCursor (sv.ctagOf w.log.length))) :
    Brings sv c mode i lo cursor held ⟨.delta [] [], ctagCursor (sv.ctagOf w.log.length)⟩ w := by
  have hresult : (SyncUpdate.delta [] []).result held = held := rfl
  have hstands := hu.stands _ hcur
  have hagreed : Agreed c w.log held := by
    cases hstands with
    | ctag n hspelled _ _ hagree =>
      have hn := sv.ctags _ _ (ctagCursor_injective hspelled)
      exact hagree hn
    | token known hk _ _ =>
      have hno := (hu.inv.issued _ known hk).2.2.1
      rw [startsAsCtag_ctagCursor] at hno
      exact nomatch hno
  refine ⟨?_, hstands, fun _ _ _ => hagreed, fun _ _ => .inl hagreed, fun _ _ => hagreed⟩
  intro k hsome hnone
  rw [hresult] at hnone
  rw [hnone] at hsome
  exact nomatch hsome

variable {n₁ : Nat}

theorem Told.brings_ctag {m : Nat} (h : Told sv c i t lo held m true false ms.names (fun _ => 0) w)
    (hu : Under sv c mode i t lo cursor held w) (hf : ∀ r ∈ ms.responses, sv.Filled w.log m r)
    (ht : w.token c.scope = t) (hoffers : sv.offersCtag = true) (hn₁ : n₁ ≤ m) :
    Brings sv c mode i lo cursor held ⟨buildUpdate c.reader sv.collection ms true, ctagCursor (sv.ctagOf n₁)⟩ w := by
  have hle := h.position
  have hleast := h.least
  have hagreed := h.agreed hu.inv hf
  refine ⟨h.drops hu.inv hf ht, .ctag n₁ rfl hoffers (by omega) ?_, ?_, ?_, ?_⟩
  · exact fun hn => hagreed (by omega)
  · intro n hdue hn
    refine hagreed ?_
    rcases hdue with ⟨-, rfl⟩ | hlisted
    · omega
    · have hnm := h.listed n hlisted
      omega
  · exact fun _ hlo => .inl (hagreed (by omega))
  · exact fun hlo _ => hagreed (by omega)

theorem told_of_members (hu : Under sv c mode i t lo cursor held w) (hc : sv.Complete w.log (fun _ => 0) ms) :
    Told sv c i t lo held w.log.length true false ms.names (fun _ => 0) w := by
  refine ⟨hu.since, Nat.le_refl _, fun _ => Nat.zero_le _, .inl ⟨rfl, fun _ => rfl⟩, ?_,
    (fun hcut => nomatch hcut), hu.inv.listed i⟩
  intro _ k hmem hk
  rw [List.take_length, valueAt_length]
  exact hc k hmem hk

theorem meets_members (hw : Under sv c mode i t lo cursor held w)
    (hoffers : sv.offersCtag = true) (hn₁ : n₁ ≤ w.log.length) :
    (setting sv c mode).Meets i (Safe c lo) (Ends mode (Under sv c mode i t lo cursor held) (fun ms w =>
        w.token c.scope = t → Brings sv c mode i lo cursor held
          ⟨buildUpdate c.reader sv.collection ms true, ctagCursor (sv.ctagOf n₁)⟩ w))
      (membersPropfind >>= fillBodies sv.collection : Adapter ε MultiStatus).run w := by
  have hC : Lasts sv c mode i fun w => Under sv c mode i t lo cursor held w ∧ n₁ ≤ w.log.length := by
    intro w₁ w₂ hrely hinv ⟨hu, hn⟩
    exact ⟨lasts_under w₁ w₂ hrely hinv hu, Nat.le_trans hn hrely.1.log.length_le⟩
  refine meets_bind_except (meets_silent ?_ hC ⟨hw, hn₁⟩ ?_)
  · intro w a w' hs
    cases hs <;> rfl
  · intro a w₂ _ ⟨hu₂, hn₂⟩ hserves
    cases a with
    | error e => exact ⟨hu₂, hserves.2.2.2.1, fun _ he => nomatch he⟩
    | ok ms =>
      have hlisted : sv.Truthful w₂.log ms ∧ sv.Complete w₂.log (fun _ => 0) ms := by
        cases hserves.1 with
        | members _ htrue hc => exact ⟨htrue, hc⟩
      have hC' : Lasts sv c mode i fun w => Under sv c mode i t lo cursor held w ∧
          Told sv c i t lo held w₂.log.length true false ms.names (fun _ => 0) w := by
        intro w₁ w₂ hrely hinv ⟨hu, ht⟩
        exact ⟨lasts_under w₁ w₂ hrely hinv hu, ht.lasts hu hrely⟩
      have htrue : sv.Truthful (w₂.log.take w₂.log.length) ms := by
        rw [List.take_length]
        exact hlisted.1
      refine (meets_fillBodies hC' ms ⟨hu₂, told_of_members hu₂ hlisted.2⟩ (Nat.le_refl _) htrue).mono ?_
      intro r w₃ ⟨⟨hu₃, htold⟩, hok, hends⟩
      refine ⟨hu₃, hok, ?_⟩
      intro ms' he ht
      obtain ⟨-, hnames, hfilled⟩ := hends ms' he
      rw [← hnames] at htold
      exact htold.brings_ctag hu₃ hfilled ht hoffers hn₂

theorem meets_byCtag (hw : Under sv c mode i t lo cursor held w) (hoffers : mode.obliging = true → sv.offersCtag = true) :
    (setting sv c mode).Meets i (Safe c lo)
      (Ends mode (Under sv c mode i t lo cursor held) (Brought sv c mode i t lo cursor held))
      (byCtag c.reader sv.collection cursor).run w := by
  refine meets_bind_except (meets_bind_except (meets_silent ?_ lasts_under hw ?_))
  · intro w a w' hs
    cases hs <;> rfl
  · intro a w₁ _ hu₁ hserves
    cases a with
    | error e => exact ⟨hu₁, hserves.2.2.2.1, fun _ he => nomatch he⟩
    | ok properties =>
      have hctag : properties.responses.findSome? (·.props.getctag) =
          if sv.offersCtag then some (sv.ctagOf w₁.log.length) else none := by
        cases hserves.1 with
        | ctag _ h => exact h
      dsimp only
      rw [hctag]
      by_cases ho : sv.offersCtag = true
      · rw [if_pos ho]
        dsimp only
        by_cases hcur : cursor = some (ctagCursor (sv.ctagOf w₁.log.length))
        · rw [if_pos hcur]
          refine ⟨hu₁, fun _ => rfl, ?_⟩
          intro sync he
          obtain rfl := Except.ok.inj he
          exact ⟨hu₁, fun _ => brings_unchanged hu₁ hcur⟩
        · rw [if_neg hcur, ← bind_assoc]
          refine meets_bind_except ((meets_members hu₁ ho (Nat.le_refl _)).mono ?_)
          intro r w₂ ⟨hu₂, hok, hends⟩
          cases r with
          | error e => exact ⟨hu₂, hok, fun _ he => nomatch he⟩
          | ok ms =>
            refine ⟨hu₂, fun _ => rfl, ?_⟩
            intro sync he
            obtain rfl := Except.ok.inj he
            exact ⟨hu₂, hends ms rfl⟩
      · rw [if_neg ho]
        exact ⟨hu₁, fun hob => absurd (hoffers hob) ho, fun _ he => nomatch he⟩

/-! ## The adapter -/

variable {cur : SyncState}

theorem Under.cursor_nonempty (hu : Under sv c mode i t lo cursor held w)
    (hcur : cursor = some cur) : cur.isEmpty = false := by
  cases hu.stands cur hcur with
  | ctag n hspelled _ _ _ =>
    rw [hspelled, Bool.eq_false_iff]
    intro he
    have hlist := congrArg String.toList (String.isEmpty_iff.mp he)
    simp [ctagCursor, ctagMark] at hlist
  | token known hk _ _ => exact (hu.inv.issued cur known hk).2.1

theorem Under.doesSync (hu : Under sv c mode i t lo cursor held w)
    (hcur : cursor = some cur) (hno : startsAsCtag cur = false) : sv.doesSync = true := by
  cases hu.stands cur hcur with
  | ctag n hspelled _ _ _ =>
    rw [hspelled, startsAsCtag_ctagCursor] at hno
    exact nomatch hno
  | token known hk _ _ => exact (hu.inv.issued cur known hk).1

theorem Under.offersCtag (hu : Under sv c mode i t lo cursor held w)
    (hc : isCtagCursor cursor = true) : sv.offersCtag = true := by
  cases hcur : cursor with
  | none =>
    rw [hcur] at hc
    exact nomatch hc
  | some cur =>
    cases hu.stands cur hcur with
    | ctag n _ hoffers _ _ => exact hoffers
    | token known hk _ _ =>
      have hno := (hu.inv.issued cur known hk).2.2.1
      rw [hcur] at hc
      have hyes : startsAsCtag cur = true := hc
      rw [hyes] at hno
      exact nomatch hno

theorem meets_flagged {x : Adapter ε (ScopeSync (fetching ε))} {flag : Bool} (h : (setting sv c mode).Meets i (Safe c lo)
      (Ends mode (Under sv c mode i t lo cursor held) (Brought sv c mode i t lo cursor held)) x.run w) :
    (setting sv c mode).Meets i (Safe c lo) (Ends mode (Under sv c mode i t lo cursor held)
        (fun a => Brought sv c mode i t lo cursor held a.1))
      (do return (← x, flag) : Adapter ε (ScopeSync (fetching ε) × Bool)).run w := by
  refine meets_bind_except (h.mono ?_)
  intro r w' ⟨hu, hok, hends⟩
  cases r with
  | error e => exact ⟨hu, hok, fun _ he => nomatch he⟩
  | ok sync =>
    refine ⟨hu, fun _ => rfl, ?_⟩
    intro a he
    obtain rfl := Except.ok.inj he
    exact hends sync rfl

theorem Reported.offersCtag {token : String}
    (hr : Reported sv c mode i t lo cursor held token (.ok ms) w) (hnone : ms.syncToken = none)
    (ho : mode.obliging = true) : sv.offersCtag = true := by
  have hobliges := hr.obliges ho
  dsimp only [Obliges] at hobliges
  by_cases hd : sv.doesSync = true
  · rw [if_pos hd] at hobliges
    rcases hobliges with ⟨ms', he, hsome⟩ | ⟨-, e, he, -⟩
    · rw [← Except.ok.inj he, hnone] at hsome
      exact nomatch hsome
    · exact nomatch he
  · exact sv.either.resolve_left hd

theorem Reported.refused {token : String} {e : CalDavError}
    (hr : Reported sv c mode i t lo cursor held token (.error e) w)
    (hno : (!token.isEmpty && e.failureClass == .needsResync) = false) (ho : mode.obliging = true) :
    e.refusesSyncCollection token.isEmpty = true ∧ sv.offersCtag = true := by
  have hobliges := hr.obliges ho
  dsimp only [Obliges] at hobliges
  by_cases hd : sv.doesSync = true
  · rw [if_pos hd] at hobliges
    rcases hobliges with ⟨ms, he, -⟩ | ⟨hempty, e', he, hclass⟩
    · exact nomatch he
    · rw [Except.error.inj he, hempty, hclass] at hno
      exact absurd hno (by decide)
  · rw [if_neg hd] at hobliges
    refine ⟨?_, sv.either.resolve_left hd⟩
    rcases hobliges with ⟨ms, he, -⟩ | ⟨e', he, hrefuses⟩
    · exact nomatch he
    · rw [Except.error.inj he]
      exact hrefuses

theorem Reported.anew {a : Except CalDavError MultiStatus}
    (hr : Reported sv c mode i t lo cursor held "" a w) (hd : sv.doesSync = true)
    (ho : mode.obliging = true) : ∃ ms, a = .ok ms ∧ ms.syncToken.isSome = true := by
  have hobliges := hr.obliges ho
  dsimp only [Obliges] at hobliges
  rw [if_pos hd] at hobliges
  rcases hobliges with hok | ⟨hempty, -⟩
  · exact hok
  · exact absurd hempty (by decide)

theorem meets_syncMembers (hsolo : ∀ j, mode.solo = some j → j = i) (hw : Under sv c mode i t lo cursor held w) :
    (setting sv c mode).Meets i (Safe c lo) (Ends mode (Under sv c mode i t lo cursor held)
        (fun a => Brought sv c mode i t lo cursor held a.1))
      (syncMembers c.reader sv.collection c.tokenless cursor).run w := by
  unfold syncMembers
  by_cases hc : isCtagCursor cursor = true
  · rw [if_pos hc]
    exact meets_flagged (meets_byCtag hw fun _ => hw.offersCtag hc)
  · rw [if_neg hc]
    have hcur : (cursor.getD "").isEmpty = false → cursor = some (cursor.getD "") := by
      intro he
      cases cursor with
      | none => exact absurd he (by decide)
      | some cur => rfl
    have hfresh : (cursor.getD "").isEmpty = true → mode.honouring = true → cursor = none := by
      intro he _
      cases hcase : cursor with
      | none => rfl
      | some cur =>
        rw [hcase] at he
        have hne := hw.cursor_nonempty hcase
        have he' : cur.isEmpty = true := he
        rw [he'] at hne
        exact nomatch hne
    refine meets_bind_except ?_
    show (setting sv c mode).Meets i (Safe c lo) _ (Except.ok <$> send (.report _)) w
    rw [map_eq_pure_bind]
    refine meets_bind ((meets_report hsolo hw hcur hfresh).mono ?_)
    intro a w₁ hr
    cases a with
    | ok ms =>
      show (setting sv c mode).Meets i (Safe c lo) _ (ExceptT.run (if _ then _ else _)) w₁
      by_cases hsome : ms.syncToken.isSome = true
      · rw [if_pos hsome]
        exact meets_flagged (meets_readReport hr fun _ => hsome)
      · rw [if_neg hsome]
        have hnone : ms.syncToken = none := by simpa using hsome
        exact meets_flagged (meets_byCtag hr.under (hr.offersCtag hnone))
    | error e =>
      show (setting sv c mode).Meets i (Safe c lo) _ (ExceptT.run (if _ then _ else _)) w₁
      by_cases hresync : (!(cursor.getD "").isEmpty && e.failureClass == .needsResync) = true
      · rw [if_pos hresync]
        rw [Bool.and_eq_true, Bool.not_eq_true', beq_iff_eq] at hresync
        have hdoes : sv.doesSync = true := by
          have hcur' := hcur hresync.1
          rw [hcur'] at hc
          exact hw.doesSync hcur' (Bool.eq_false_iff.mpr hc)
        refine meets_bind_except ((@meets_report _ _ _ _ _ _ _ _ _ _ hsolo "" hr.under ?_ ?_).mono ?_)
        · intro he
          exact absurd he (by decide)
        · intro _ hhon
          exact absurd hresync.2 (hr.honours hhon)
        · intro a w₂ hr₂
          cases a with
          | error e₂ =>
            refine ⟨hr₂.under, ?_, fun _ he => nomatch he⟩
            intro ho
            obtain ⟨ms, he, -⟩ := hr₂.anew hdoes ho
            exact nomatch he
          | ok ms =>
            refine meets_flagged (meets_readReport hr₂ ?_)
            intro ho
            obtain ⟨ms', he, hsome⟩ := hr₂.anew hdoes ho
            rw [Except.ok.inj he]
            exact hsome
      · rw [if_neg hresync]
        have hrefused := hr.refused (Bool.eq_false_iff.mpr hresync)
        by_cases hthrow : (!e.refusesSyncCollection (cursor.getD "").isEmpty) = true
        · rw [if_pos hthrow]
          refine ⟨hr.under, ?_, fun _ he => nomatch he⟩
          intro ho
          rw [(hrefused ho).1] at hthrow
          exact nomatch hthrow
        · rw [if_neg hthrow]
          exact meets_flagged (meets_byCtag hr.under fun ho => (hrefused ho).2)

end Dav

namespace Dav

/-!
## The store's steps

What each call to the store does to the collection's scope.  A claim raises the fence and nothing else,
an apply writes what the update says while the fence stands, and everything else leaves the scope as it
is.
-/

open Journal
open Setting
open Scope (Store ScopeRow)
open Drivers (ScopeSync)

variable {ε : Type} {sv : Server} {c : Synced ε} {mode : Mode} {i lo : Nat} {w : World ε}

/-- What the passes see of a row. -/
def seen (row : ScopeRow) : Nat × Option SyncState × Option CollectionTag :=
  (row.token, row.cursor, row.collectionTag)

variable {scope : SyncScope} {st : Store ε}

theorem same_of_rows (hrow : (st.syncScope.get? scope).map seen = (w.store.syncScope.get? scope).map seen)
    (hheld : st.objectPayload scope = w.store.objectPayload scope) :
    Same scope w { w with store := st } := by
  have hview : ∀ {β : Type} (f : Nat × Option SyncState × Option CollectionTag → β),
      (st.syncScope.get? scope).map (fun row => f (seen row)) =
        (w.store.syncScope.get? scope).map fun row => f (seen row) := by
    intro β f
    have h := congrArg (Option.map f) hrow
    rwa [Option.map_map, Option.map_map] at h
  have hjoin : ∀ (f : Nat × Option SyncState × Option CollectionTag → Option String),
      (st.syncScope.get? scope).bind (fun row => f (seen row)) =
        (w.store.syncScope.get? scope).bind fun row => f (seen row) := by
    intro f
    have h := congrArg (fun o => Option.bind o f) hrow
    simpa [Option.bind_map] using h
  refine ⟨rfl, rfl, rfl, rfl, ?_, ?_, ?_, hheld⟩
  · show ((st.syncScope.get? scope).map ScopeRow.token).getD 0 =
      ((w.store.syncScope.get? scope).map ScopeRow.token).getD 0
    exact congrArg (Option.getD · 0) (hview Prod.fst)
  · exact hjoin fun s => s.2.1
  · exact hjoin fun s => s.2.2

theorem map_seen_modify {t : Keyed SyncScope ScopeRow} {target : SyncScope}
    {f : ScopeRow → ScopeRow} (hf : ∀ row, seen (f row) = seen row) :
    ((t.modify target f).get? scope).map seen = (t.get? scope).map seen := by
  rw [Keyed.get?_modify]
  by_cases h : scope = target
  · rw [if_pos h, Option.map_map]
    congr 1
    funext row
    exact hf row
  · rw [if_neg h]

variable (lease : SyncLease)

theorem same_release (scope : SyncScope) : Same scope w { w with store := w.store.release lease } := by
  unfold Store.release
  split
  · exact same_of_rows (map_seen_modify fun _ => rfl) rfl
  · exact same_of_rows rfl rfl

theorem same_setExpansionWindow (window : ExpansionWindow) (scope : SyncScope) :
    Same scope w { w with store := (w.store.setExpansionWindow lease window).1 } := by
  unfold Store.setExpansionWindow
  split
  · exact same_of_rows (map_seen_modify fun _ => rfl) rfl
  · exact same_of_rows rfl rfl

theorem abandoned_token (scope : SyncScope) :
    w.token scope ≤ ({ w with store := w.store.abandonLeases.1 } : World ε).token scope := by
  show ((w.store.syncScope.get? scope).map ScopeRow.token).getD 0 ≤
    (((w.store.syncScope.mapRows fun _ row => row.abandoned).get? scope).map ScopeRow.token).getD 0
  rw [Keyed.get?_mapRows]
  cases w.store.syncScope.get? scope with
  | none => exact Nat.le_refl _
  | some row =>
    show row.token ≤ row.abandoned.token
    unfold ScopeRow.abandoned
    split
    · exact Nat.le_succ _
    · exact Nat.le_refl _

section Row

variable {scope : SyncScope} {row : ScopeRow}

theorem World.token_of_row (h : w.store.syncScope.get? scope = some row) : w.token scope = row.token := by
  unfold World.token World.row
  rw [h]
  rfl

theorem World.cursor_of_row (h : w.store.syncScope.get? scope = some row) : w.cursor scope = row.cursor := by
  unfold World.cursor World.row
  rw [h]
  rfl

theorem World.tag_of_row (h : w.store.syncScope.get? scope = some row) : w.tag scope = row.collectionTag := by
  unfold World.tag World.row
  rw [h]
  rfl

end Row

/-- What a granted claim leaves. -/
structure Granted (scope : SyncScope) (w w' : World ε) (claim : SyncClaim) : Prop where
  log : w'.log = w.log
  issued : w'.issued = w.issued
  listed : w'.listed = w.listed
  token : w'.token scope = w.token scope + 1
  cursor : w'.cursor scope = w.cursor scope
  tag : w'.tag scope = w.tag scope
  held : w'.held scope = w.held scope
  leased : claim.lease.token = w'.token scope
  state : claim.state = w.cursor scope
  named : claim.lease.scope = scope

theorem granted_of_claim {account : AccountId} {req : LeaseRequest} {now : UtcDateTime} {claim : SyncClaim}
    (h : w.store.claim account scope req now = (st, .ok claim)) :
    Granted scope w { w with store := st, holder := i } claim := by
  rcases Scope.claim_cases w.store account scope req now with ⟨e, he⟩ | ⟨expiry, -, he⟩
  · rw [h] at he
    exact nomatch (Prod.mk.inj he).2
  · rw [h] at he
    obtain ⟨hst, hclaim⟩ := Prod.mk.inj he
    obtain rfl := hst
    obtain rfl := Except.ok.inj hclaim
    have htoken : (Scope.claimedRow w.store account scope).token = w.token scope := by
      unfold Scope.claimedRow World.token World.row
      cases w.store.syncScope.get? scope <;> rfl
    have hcursor : (Scope.claimedRow w.store account scope).cursor = w.cursor scope := by
      unfold Scope.claimedRow World.cursor World.row
      cases w.store.syncScope.get? scope <;> rfl
    have htag : (Scope.claimedRow w.store account scope).collectionTag = w.tag scope := by
      unfold Scope.claimedRow World.tag World.row
      cases w.store.syncScope.get? scope <;> rfl
    have hrow := Keyed.get?_put w.store.syncScope scope { Scope.claimedRow w.store account scope with
        token := (Scope.claimedRow w.store account scope).token + 1, leaseExpiry := some expiry } scope
    rw [if_pos rfl] at hrow
    refine ⟨rfl, rfl, rfl, ?_, ?_, ?_, rfl, ?_, hcursor, rfl⟩
    · rw [World.token_of_row hrow, ← htoken]
    · rw [World.cursor_of_row hrow, ← hcursor]
    · rw [World.tag_of_row hrow, ← htag]
    · rw [World.token_of_row hrow]

end Dav
end SyncEngine
