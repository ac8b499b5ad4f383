import SyncEngine.Dav.Fetch

/-!
# From an answer to an update

`Under` is what a pass knows under its lease: what the store held when it was granted and what its cursor stands for.
`Answered` is what it knows of the report it is reading (`Told`, of any listing), and `Brings` is what the update it
ends with is good for; its last two fields are about a collection that nobody changes.  Each survives what the others
do.
-/

namespace SyncEngine
namespace Dav

open Journal
open Drivers (ScopeSync)

variable {ε : Type}

section

variable (sv : Server) (c : Synced ε) (mode : Mode) (i t lo : Nat)

structure Under (cursor : Option SyncState) (held : ProviderKey → Option ε) (w : World ε) : Prop where
  inv : Inv sv c w
  since : lo ≤ w.log.length
  lease : t ≤ w.token c.scope
  mine : w.token c.scope = t → w.holder = i ∧ w.held c.scope = held
  stands : ∀ cur, cursor = some cur → Stands sv c w held cur
  alone : mode.solo = some i → w.token c.scope = t

/-- The states the pass has to be up to date with. -/
def Due (w : World ε) (n : Nat) : Prop := (mode.whole = true ∧ n = lo) ∨ w.listed i = some n

/-- The next token is told everything the last was and something new.  Without a last token there is
nothing to compare with. -/
def Advances (w : World ε) (cursor : Option SyncState) (next : SyncState) : Prop :=
  ∃ known', w.issued next = some known' ∧ (cursor = none ∨ ∃ cur known, cursor = some cur ∧
    w.issued cur = some known ∧ (∀ k, QuietFrom w.log (known k) k → QuietFrom w.log (known' k) k) ∧
    ∃ k, ¬QuietFrom w.log (known k) k ∧ QuietFrom w.log (known' k) k)

structure Brings (cursor : Option SyncState) (held : ProviderKey → Option ε)
    (sync : ScopeSync (fetching ε)) (w : World ε) : Prop where
  drops : ∀ k, (held k).isSome = true → sync.update.result held k = none → Found w.log lo k none
  stands : Stands sv c w (sync.update.result held) sync.nextCursor
  agrees : ∀ n, Due mode i lo w n → w.log.length = n → Agreed c w.log (sync.update.result held)
  advances : mode.honouring = true → w.log.length = lo →
    Agreed c w.log (sync.update.result held) ∨ Advances w cursor sync.nextCursor
  keeps : w.log.length = lo → Agreed c w.log held → Agreed c w.log (sync.update.result held)

/-- As far as the lease is still the pass's. -/
def Brought (cursor : Option SyncState) (held : ProviderKey → Option ε) (sync : ScopeSync (fetching ε))
    (w : World ε) : Prop :=
  Under sv c mode i t lo cursor held w ∧
    (w.token c.scope = t → Brings sv c mode i lo cursor held sync w)

/-- An answer that was given when the journal had `m` entries, to somebody who was told `known`. -/
structure Told (held : ProviderKey → Option ε) (m : Nat) (snapshot cut : Bool) (names : List String)
    (known : String → Nat) (w : World ε) : Prop where
  least : lo ≤ m
  position : m ≤ w.log.length
  bound : ∀ k, known k ≤ m
  prior : (snapshot = true ∧ ∀ k, known k = 0) ∨
    (snapshot = false ∧ ∀ k, CoversAt (Server.reads c.reader) w.log (known k) k (held k))
  complete : cut = false → ∀ k, sv.member k = true → k ∉ names →
    QuietFrom (w.log.take m) (known k) k ∨ (valueAt w.log (known k) k = none ∧ valueAt w.log m k = none)
  spared : cut = true → snapshot = true → w.token c.scope = t →
    ∀ k, (held k).isSome = true → valueAt w.log m k ≠ none → k ∈ names
  listed : ∀ n, w.listed i = some n → n ≤ m

/-- A report, with the token it was given with. -/
structure Answered (cursor : Option SyncState) (held : ProviderKey → Option ε) (m : Nat)
    (snapshot cut : Bool) (names : List String) (known : String → Nat) (next : SyncState)
    (w : World ε) : Prop where
  told : Told sv c i t lo held m snapshot cut names known w
  issued : w.issued next = some fun k => if cut && !names.contains k then known k else m
  source : snapshot = false → ∃ cur, cursor = some cur ∧ w.issued cur = some known
  fresh : snapshot = true → mode.honouring = true → cursor = none
  news : cut = true → ∃ k ∈ names, ¬QuietFrom (w.log.take m) (known k) k
  untagged : cut = true → mode.whole = false ∧ w.listed i ≠ some m

end

variable {sv : Server} {c : Synced ε} {mode : Mode} {i t lo : Nat} {w w' : World ε}
variable {cursor : Option SyncState} {held : ProviderKey → Option ε}

/-! ## What survives -/

theorem lasts_under : Lasts sv c mode i (Under sv c mode i t lo cursor held) := by
  intro w w' hrely hinv h
  have hlog := hrely.1.log
  have htoken := hrely.1.token
  refine ⟨hinv, Nat.le_trans h.since hlog.length_le, Nat.le_trans h.lease htoken, ?_, ?_, ?_⟩
  · intro ht
    have hle := h.lease
    obtain ⟨hholder, hheld⟩ := hrely.1.fenced (by omega)
    obtain ⟨hi, hh⟩ := h.mine (by omega)
    exact ⟨hholder.trans hi, (hheld hi).trans hh⟩
  · intro cur hcur
    exact (h.stands cur hcur).grow hlog hrely.1.issued
  · intro hsolo
    rw [← hrely.2 hsolo]
    exact h.alone hsolo

theorem log_eq_of_length {n : Nat} (hlog : w.log <+: w'.log) (hn : n ≤ w.log.length)
    (h : w'.log.length = n) : w.log = w'.log := by
  have hle := hlog.length_le
  exact hlog.eq_of_length (by omega)

variable {next : SyncState}

theorem Advances.grow (h : Advances w cursor next) (hlog : w.log = w'.log)
    (hissued : ∀ token known, w.issued token = some known → w'.issued token = some known) :
    Advances w' cursor next := by
  obtain ⟨known', hn, hprior⟩ := h
  refine ⟨known', hissued next known' hn, ?_⟩
  rcases hprior with hnone | ⟨cur, known, hcur, hk, hkeep, k, hk₁, hk₂⟩
  · exact .inl hnone
  · rw [hlog] at hkeep hk₁ hk₂
    exact .inr ⟨cur, known, hcur, hissued cur known hk, hkeep, k, hk₁, hk₂⟩

theorem lasts_brought {sync : ScopeSync (fetching ε)} :
    Lasts sv c mode i (Brought sv c mode i t lo cursor held sync) := by
  intro w w' hrely hinv ⟨hu, hb⟩
  have hlog := hrely.1.log
  refine ⟨lasts_under w w' hrely hinv hu, ?_⟩
  intro ht
  have hle := hu.lease
  have htoken := hrely.1.token
  have h := hb (by omega)
  refine ⟨?_, h.stands.grow hlog hrely.1.issued, ?_, ?_, ?_⟩
  · intro k hsome hnone
    exact (h.drops k hsome hnone).grow hlog
  · intro n hdue hn
    have hdue' : Due mode i lo w n := by
      rcases hdue with hdue | hdue
      · exact .inl hdue
      · rw [hrely.1.listed] at hdue
        exact .inr hdue
    have hbound : n ≤ w.log.length := by
      rcases hdue' with ⟨-, rfl⟩ | hlisted
      · exact hu.since
      · exact hu.inv.listed i n hlisted
    have hsame := log_eq_of_length hlog hbound hn
    rw [← hsame]
    exact h.agrees n hdue' (by rw [hsame, hn])
  · intro hhon hlo
    have hsame := log_eq_of_length hlog hu.since hlo
    rw [← hsame]
    rcases h.advances hhon (by rw [hsame, hlo]) with hagree | hadv
    · exact .inl hagree
    · exact .inr (hadv.grow hsame hrely.1.issued)
  · intro hlo hagree
    have hsame := log_eq_of_length hlog hu.since hlo
    rw [← hsame] at hagree ⊢
    exact h.keeps (by rw [hsame, hlo]) hagree

variable {m : Nat}

theorem take_grow (hlog : w.log <+: w'.log) (hm : m ≤ w.log.length) : w'.log.take m = w.log.take m := by
  obtain ⟨later, hl⟩ := hlog
  rw [← hl, List.take_append_of_le_length hm]

variable {snapshot cut : Bool} {names : List String} {known : String → Nat}

theorem Told.lasts (h : Told sv c i t lo held m snapshot cut names known w)
    (hu : Under sv c mode i t lo cursor held w) (hrely : (setting sv c mode).rely i w w') :
    Told sv c i t lo held m snapshot cut names known w' := by
  have hlog := hrely.1.log
  have hm := h.position
  have hle : ∀ k, known k ≤ w.log.length := fun k => Nat.le_trans (h.bound k) hm
  refine ⟨h.least, Nat.le_trans hm hlog.length_le, h.bound, ?_, ?_, ?_, ?_⟩
  · rcases h.prior with hs | ⟨hs, hcovers⟩
    · exact .inl hs
    · exact .inr ⟨hs, fun k => (hcovers k).grow hlog (hle k)⟩
  · intro hcut k hmem hk
    rw [take_grow hlog hm, valueAt_grow hlog (hle k), valueAt_grow hlog hm]
    exact h.complete hcut k hmem hk
  · intro hcut hsnap ht k hsome hv
    have hlease := hu.lease
    have htoken := hrely.1.token
    rw [valueAt_grow hlog hm] at hv
    exact h.spared hcut hsnap (by omega) k hsome hv
  · rw [hrely.1.listed]
    exact h.listed

theorem Answered.lasts (h : Answered sv c mode i t lo cursor held m snapshot cut names known next w)
    (hu : Under sv c mode i t lo cursor held w) (hrely : (setting sv c mode).rely i w w') :
    Answered sv c mode i t lo cursor held m snapshot cut names known next w' := by
  refine ⟨h.told.lasts hu hrely, hrely.1.issued _ _ h.issued, ?_, h.fresh, ?_, ?_⟩
  · intro hs
    obtain ⟨cur, hcur, hissued⟩ := h.source hs
    exact ⟨cur, hcur, hrely.1.issued _ _ hissued⟩
  · intro hcut
    rw [take_grow hrely.1.log h.told.position]
    exact h.news hcut
  · rw [hrely.1.listed]
    exact h.untagged

/-! ## What the update is good for -/

variable {k : String}

theorem valueAt_nonmember (hinv : Inv sv c w) (hk : sv.member k = false) (p : Nat) : valueAt w.log p k = none := by
  have hnone : latest Prod.fst (w.log.take p) k = none := by
    rw [latest_eq_none]
    intro change hchange he
    have hmem := hinv.members change (List.mem_of_mem_take hchange)
    rw [he, hk] at hmem
    exact nomatch hmem
  rw [valueAt, value, hnone]
  rfl

theorem valueAt_of_never {log : Log} (h : QuietFrom (log.take m) 0 k) : valueAt log m k = none := by
  have hsame := h.valueAt_eq (Nat.zero_le 0)
  rw [valueAt_zero] at hsame
  exact hsame.symm

section Report

variable {m : Nat} {snapshot cut : Bool} {known : String → Nat} {next : SyncState} {ms : MultiStatus}

variable {names : List String} {k : String}

theorem Told.told (h : Told sv c i t lo held m snapshot cut names known w)
    (hinv : Inv sv c w) (hk : (cut && !names.contains k) = false) :
    (sv.member k = true ∧ k ∈ names) ∨ QuietFrom (w.log.take m) (known k) k ∨
      (valueAt w.log (known k) k = none ∧ valueAt w.log m k = none) := by
  by_cases hmem : sv.member k = true
  · by_cases hn : k ∈ names
    · exact .inl ⟨hmem, hn⟩
    · have hcut : cut = false := by simpa [hn] using hk
      exact .inr (h.complete hcut k hmem hn)
  · have hno := Bool.eq_false_iff.mpr hmem
    exact .inr (.inr ⟨valueAt_nonmember hinv hno _, valueAt_nonmember hinv hno _⟩)

theorem Told.gone (h : Told sv c i t lo held m true cut names known w)
    (hinv : Inv sv c w) (hk : (cut && !names.contains k) = false) :
    (sv.member k = true ∧ k ∈ names) ∨ valueAt w.log m k = none := by
  have hzero : known k = 0 := by
    rcases h.prior with ⟨-, hzero⟩ | ⟨hs, -⟩
    · exact hzero k
    · exact nomatch hs
  rcases h.told hinv hk with hnamed | hq | ⟨-, hnone⟩
  · exact .inl hnamed
  · rw [hzero] at hq
    exact .inr (valueAt_of_never hq)
  · exact .inr hnone

theorem Told.covers (h : Told sv c i t lo held m snapshot cut ms.names known w)
    (hinv : Inv sv c w) (hf : ∀ r ∈ ms.responses, sv.Filled w.log m r) (k : String) :
    CoversAt (Server.reads c.reader) w.log (if cut && !ms.names.contains k then known k else m) k
      ((buildUpdate c.reader sv.collection ms snapshot).result held k) := by
  have g : sv.Gathered c.reader w.log m ms.names _ _ _ := Server.gathered hf
  unfold buildUpdate
  cases snapshot with
  | true =>
    rw [if_pos rfl]
    by_cases hk : (cut && !ms.names.contains k) = true
    · have hn : k ∉ ms.names := by
        rw [Bool.and_eq_true, Bool.not_eq_true'] at hk
        simpa using hk.2
      rw [if_pos hk, g.snapshot_unnamed hn]
      rcases h.prior with ⟨-, hzero⟩ | ⟨hs, -⟩
      · rw [hzero k]
        exact .of_absent valueAt_zero
      · exact nomatch hs
    · rw [if_neg hk]
      exact g.snapshot_coversAt (h.gone hinv (Bool.eq_false_iff.mpr hk))
  | false =>
    rw [if_neg Bool.false_ne_true]
    have hprior : ∀ k, CoversAt (Server.reads c.reader) w.log (known k) k (held k) := by
      rcases h.prior with ⟨hs, -⟩ | ⟨-, hcovers⟩
      · exact nomatch hs
      · exact hcovers
    by_cases hk : (cut && !ms.names.contains k) = true
    · have hn : k ∉ ms.names := by
        rw [Bool.and_eq_true, Bool.not_eq_true'] at hk
        simpa using hk.2
      rw [if_pos hk, g.delta_unnamed hn]
      exact hprior k
    · rw [if_neg hk]
      exact g.delta_coversAt (h.bound k) (hprior k) (h.told hinv (Bool.eq_false_iff.mpr hk))

theorem Told.drops (h : Told sv c i t lo held m snapshot cut ms.names known w)
    (hinv : Inv sv c w) (hf : ∀ r ∈ ms.responses, sv.Filled w.log m r)
    (ht : w.token c.scope = t) (k : String) (hsome : (held k).isSome = true)
    (hnone : (buildUpdate c.reader sv.collection ms snapshot).result held k = none) :
    Found w.log lo k none := by
  have g : sv.Gathered c.reader w.log m ms.names _ _ _ := Server.gathered hf
  refine Found.earlier ?_ h.least
  unfold buildUpdate at hnone
  cases snapshot with
  | true =>
    rw [if_pos rfl] at hnone
    refine g.snapshot_drops h.position hsome hnone ?_
    by_cases hk : (cut && !ms.names.contains k) = true
    · rw [Bool.and_eq_true, Bool.not_eq_true'] at hk
      have hn : k ∉ ms.names := by simpa using hk.2
      right
      by_contra hv
      exact hn (h.spared hk.1 rfl ht k hsome hv)
    · exact h.gone hinv (Bool.eq_false_iff.mpr hk)
  | false =>
    rw [if_neg Bool.false_ne_true] at hnone
    exact g.delta_drops hsome hnone

theorem Told.agreed (h : Told sv c i t lo held m snapshot false ms.names known w)
    (hinv : Inv sv c w) (hf : ∀ r ∈ ms.responses, sv.Filled w.log m r) (hm : m = w.log.length) :
    Agreed c w.log ((buildUpdate c.reader sv.collection ms snapshot).result held) := by
  have hcovers : ∀ k, CoversAt (Server.reads c.reader) w.log m k
      ((buildUpdate c.reader sv.collection ms snapshot).result held k) := by
    intro k
    have hc := h.covers hinv hf k
    rwa [Bool.false_and, if_neg Bool.false_ne_true] at hc
  refine agrees_of_covers hcovers fun k => ?_
  rw [hm]
  exact quietFrom_length

theorem Told.keeps (h : Told sv c i t lo held m snapshot cut ms.names known w)
    (hinv : Inv sv c w) (hf : ∀ r ∈ ms.responses, sv.Filled w.log m r)
    (ht : w.token c.scope = t) (hm : m = w.log.length) (hagree : Agreed c w.log held) :
    Agreed c w.log ((buildUpdate c.reader sv.collection ms snapshot).result held) := by
  have hcovered : ∀ k, (cut && !ms.names.contains k) = false → CoversAt (Server.reads c.reader) w.log w.log.length k
        ((buildUpdate c.reader sv.collection ms snapshot).result held k) := by
    intro k hk
    have hc := h.covers hinv hf k
    rwa [hk, if_neg Bool.false_ne_true, hm] at hc
  have hleft : ∀ k, (cut && !ms.names.contains k) = true →
      (buildUpdate c.reader sv.collection ms snapshot).result held k = held k ∨
        ((buildUpdate c.reader sv.collection ms snapshot).result held k = none ∧
          ((held k).isSome = true → value w.log k = none)) := by
    intro k hk
    rw [Bool.and_eq_true, Bool.not_eq_true'] at hk
    have hn : k ∉ ms.names := by simpa using hk.2
    have g : sv.Gathered c.reader w.log m ms.names _ _ _ := Server.gathered hf
    unfold buildUpdate
    cases snapshot with
    | true =>
      rw [if_pos rfl]
      refine .inr ⟨g.snapshot_unnamed hn, ?_⟩
      intro hsome
      by_contra hv
      rw [← valueAt_length, ← hm] at hv
      exact hn (h.spared hk.1 rfl ht k hsome hv)
    | false =>
      rw [if_neg Bool.false_ne_true]
      exact .inl (g.delta_unnamed hn)
  refine ⟨?_, ?_⟩
  · intro k b hb
    by_cases hk : (cut && !ms.names.contains k) = true
    · rcases hleft k hk with hsame | ⟨hnone, -⟩
      · rw [hsame] at hb
        exact hagree.present k b hb
      · rw [hnone] at hb
        exact nomatch hb
    · intro hv
      rw [← valueAt_length] at hv
      rw [(hcovered k (Bool.eq_false_iff.mpr hk)).absent hv] at hb
      exact nomatch hb
  · intro k a b hv hb
    by_cases hk : (cut && !ms.names.contains k) = true
    · have hheld := hagree.current k a b hv hb
      rcases hleft k hk with hsame | ⟨-, hgone⟩
      · rw [hsame, hheld]
      · rw [hgone (by rw [hheld]; rfl)] at hv
        exact nomatch hv
    · exact (hcovered k (Bool.eq_false_iff.mpr hk)).current quietFrom_length a b hv hb

theorem Answered.advances (h : Answered sv c mode i t lo cursor held m snapshot true ms.names known next w)
    (hhon : mode.honouring = true) (hm : m = w.log.length) : Advances w cursor next := by
  refine ⟨_, h.issued, ?_⟩
  cases snapshot with
  | true => exact .inl (h.fresh rfl hhon)
  | false =>
    obtain ⟨cur, hcur, hissued⟩ := h.source rfl
    refine .inr ⟨cur, known, hcur, hissued, ?_, ?_⟩
    · intro k hq
      split
      · exact hq
      · rw [hm]
        exact quietFrom_length
    · obtain ⟨k, hk, hnew⟩ := h.news rfl
      refine ⟨k, ?_, ?_⟩
      · rwa [hm, List.take_length] at hnew
      · rw [if_neg (by simp [hk]), hm]
        exact quietFrom_length

theorem Answered.brings (h : Answered sv c mode i t lo cursor held m snapshot cut ms.names known next w)
    (hu : Under sv c mode i t lo cursor held w) (hf : ∀ r ∈ ms.responses, sv.Filled w.log m r)
    (ht : w.token c.scope = t) :
    Brings sv c mode i lo cursor held ⟨buildUpdate c.reader sv.collection ms snapshot, next⟩ w := by
  have hinv := hu.inv
  have hle := h.told.position
  have hleast := h.told.least
  refine ⟨h.told.drops hinv hf ht, .token _ h.issued ?_ (h.told.covers hinv hf), ?_, ?_, ?_⟩
  · intro k
    have hbound := h.told.bound k
    split <;> omega
  · intro n hdue hn
    have hnm : n ≤ m := by
      rcases hdue with ⟨-, rfl⟩ | hlisted
      · exact hleast
      · exact h.told.listed n hlisted
    cases cut with
    | true =>
      obtain ⟨hwhole, hlisted⟩ := h.untagged rfl
      rcases hdue with ⟨hw, -⟩ | hdue
      · rw [hwhole] at hw
        exact nomatch hw
      · exact absurd (by rw [hdue]; congr 1; omega) hlisted
    | false => exact h.told.agreed hinv hf (by omega)
  · intro hhon hlo
    cases cut with
    | true => exact .inr (h.advances hhon (by omega))
    | false => exact .inl (h.told.agreed hinv hf (by omega))
  · intro hlo hagree
    exact h.told.keeps hinv hf ht (by omega) hagree

end Report

end Dav
end SyncEngine
