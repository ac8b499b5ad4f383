import SyncEngine.Imap.Backfill

/-!
# What a pass of pages leaves

Against a server that does not change.  What the pages of a pass hold depends on how many messages one
command may name, but which messages they hold does not.
-/

namespace SyncEngine
namespace Imap

open Mail

variable {δ : Type}

/-! ## The mailbox as it is open -/

namespace Server

variable (server : Server δ) (on : Binding)

def selected : SelectData := server.answer (.select on.session.qresync)

/-- The `UIDNEXT` a pass goes by. -/
def next : Nat := server.gives (effectiveUidNext (server.selected on))

def find (k : ProviderKey) : Option (ServerMessage δ) :=
  server.messages.find? fun m => messageKey on.mailbox server.uidValidity m.uid = k

variable {server on}

variable {k : ProviderKey} {m : ServerMessage δ}

theorem find_eq_some : server.find on k = some m ↔ m ∈ server.messages ∧ (server.stored on m).key = k := by
  constructor
  · intro h
    have hkey := List.find?_some h
    exact ⟨List.mem_of_find?_eq_some h, of_decide_eq_true hkey⟩
  · intro ⟨hm, hkey⟩
    cases h : server.find on k with
    | none => exact absurd (decide_eq_true hkey) (List.find?_eq_none.mp h m hm)
    | some m' =>
      have hkey' := List.find?_some h
      have hkey' : (server.stored on m').key = k := of_decide_eq_true hkey'
      rw [uid_injective (List.mem_of_find?_eq_some h) hm (uid_of_key (hkey'.trans hkey.symm))]

theorem find_eq_none : server.find on k = none ↔ ∀ m ∈ server.messages, (server.stored on m).key ≠ k := by
  constructor
  · intro h m hm hkey
    rw [find_eq_some.mpr ⟨hm, hkey⟩] at h
    simp at h
  · intro h
    cases hfind : server.find on k with
    | none => rfl
    | some m => exact absurd (find_eq_some.mp hfind).2 (h m (find_eq_some.mp hfind).1)

theorem latest_of_stored {ms : List (ServerMessage δ)} {P : ServerMessage δ → Bool}
    (h : ∀ m, m ∈ ms ↔ m ∈ server.messages ∧ P m = true) (k : ProviderKey) :
    latest Message.key (ms.map (server.stored on)) k = ((server.find on k).filter P).map (server.stored on) := by
  cases hfind : server.find on k with
  | none =>
    rw [latest_stored_eq_none.mpr]
    · rfl
    · exact fun m hm => find_eq_none.mp hfind m ((h m).mp hm).1
  | some m =>
    obtain ⟨hm, rfl⟩ := find_eq_some.mp hfind
    by_cases hP : P m = true
    · rw [latest_stored (fun m hm => ((h m).mp hm).1) ((h m).mpr ⟨hm, hP⟩)]
      simp [Option.filter, hP]
    · have hnone : latest Message.key (ms.map (server.stored on)) (server.stored on m).key = none := by
        rw [latest_stored_eq_none]
        intro m' hm' hkey
        rw [uid_injective ((h m').mp hm').1 hm (uid_of_key hkey)] at hm'
        exact hP ((h m).mp hm').2
      rw [hnone]
      simp [Option.filter, hP]

theorem uid_le_highest (hm : m ∈ server.messages) : m.uid ≤ server.highest := by
  unfold highest
  have : ∀ uids : List Nat, m.uid ∈ uids → m.uid ≤ uids.foldr max 0 := by
    intro uids
    induction uids with
    | nil => intro h; exact absurd h List.not_mem_nil
    | cons uid uids ih =>
      intro h
      rw [List.foldr_cons]
      rcases List.mem_cons.mp h with h | h
      · omega
      · have := ih h
        omega
  exact this _ (List.mem_map.mpr ⟨m, hm, rfl⟩)

theorem highest_lt (h : server.messages ≠ []) : server.highest < server.uidNext := by
  unfold highest
  have hpos : 0 < server.uidNext := by
    obtain ⟨m, hm⟩ := List.exists_mem_of_ne_nil _ h
    have := server.uid_lt m hm
    omega
  have : ∀ uids : List Nat, (∀ uid ∈ uids, uid < server.uidNext) → uids.foldr max 0 < server.uidNext := by
    intro uids
    induction uids with
    | nil => intro _; exact hpos
    | cons uid uids ih =>
      intro h
      rw [List.foldr_cons]
      have h₁ := h uid List.mem_cons_self
      have h₂ := ih fun uid' h' => h uid' (List.mem_cons_of_mem uid h')
      omega
  apply this
  intro uid huid
  obtain ⟨m, hm, rfl⟩ := List.mem_map.mp huid
  exact server.uid_lt m hm

theorem next_eq : server.next on =
    if server.saysUidNext then server.uidNext
    else if server.messages = [] then 1 else server.highest + 1 := by
  unfold next selected effectiveUidNext answer
  by_cases hannounced : server.saysUidNext = true
  · simp [hannounced]
  · by_cases hempty : server.messages = []
    · simp [hannounced, hempty]
    · have hlt := highest_lt hempty
      have hbound := server.uidNext_lt
      have hanswer : server.gives Pass.highestUid = [server.highest] := by
        show (if server.messages = [] then [] else [server.highest]) = _
        rw [if_neg hempty]
      have hlen : server.messages.length ≠ 0 := by simpa using hempty
      simp only [hannounced, Bool.false_eq_true, if_false, if_neg hempty, if_neg hlen, gives_bind, hanswer, gives_pure]
      show min (max server.highest 0 + 1) (2 ^ 32 - 1) = _
      omega

theorem uid_lt_next (hm : m ∈ server.messages) : m.uid < server.next on := by
  have hne : server.messages ≠ [] := List.ne_nil_of_mem hm
  have hle := uid_le_highest hm
  have hlt := server.uid_lt m hm
  rw [next_eq]
  by_cases hannounced : server.saysUidNext = true
  · rw [if_pos hannounced]
    exact hlt
  · rw [if_neg hannounced, if_neg hne]
    omega

theorem next_lt : server.next on < 2 ^ 32 := by
  have hbound := server.uidNext_lt
  rw [next_eq]
  by_cases hannounced : server.saysUidNext = true
  · rw [if_pos hannounced]
    exact hbound
  · rw [if_neg hannounced]
    by_cases hempty : server.messages = []
    · rw [if_pos hempty]
      omega
    · have := highest_lt hempty
      rw [if_neg hempty]
      omega

theorem sends_effectiveUidNext (data : SelectData) : server.sends (effectiveUidNext data) = [] := by
  unfold effectiveUidNext
  cases data.uidNext with
  | some uidNext => rfl
  | none =>
    by_cases h : data.total = 0
    · simp only [if_pos h]
      rfl
    · simp only [if_neg h]
      rfl

theorem mem_since {floor : CalendarDate} {uid : Nat} : uid ∈ server.since floor ↔
      ∃ m ∈ server.messages, floor.days ≤ m.internalDate.day.days ∧ m.uid = uid := by
  unfold since
  simp only [List.mem_map, List.mem_filter, decide_eq_true_eq, and_assoc]

end Server

def inWindow (since : Option CalendarDate) (m : ServerMessage δ) : Bool :=
  since.all fun floor => floor.days ≤ m.internalDate.day.days

theorem Server.uid_mem_since {server : Server δ} {floor : CalendarDate} {m : ServerMessage δ}
    (hm : m ∈ server.messages) : m.uid ∈ server.since floor ↔ inWindow (some floor) m = true := by
  rw [Server.mem_since]
  constructor
  · rintro ⟨m', hm', hday, huid⟩
    rw [← Server.uid_injective hm' hm huid]
    exact decide_eq_true hday
  · intro h
    exact ⟨m, hm, of_decide_eq_true h, rfl⟩

/-! ## A resync -/

variable {start step : Nat}

theorem rangeEnd_eq (hpos : 0 < start + step) (h : start + step ≤ 2 ^ 32) : rangeEnd start step = start + step - 1 := by
  unfold rangeEnd
  omega

theorem rangeEnd_wraps (h : 2 ^ 32 < start + step) (hstep : step < 2 ^ 32)
    (hstart : start < 2 ^ 32) : rangeEnd start step = start + step - 2 ^ 32 - 1 := by
  unfold rangeEnd
  omega

section Sets

variable {server : Server δ}

/-- Whether ranges of a width from `low` on name a UID.  A range whose end passes 32 bits names only
its first. -/
def reached (low limit uid : Nat) : Bool :=
  decide (limit = 0) || decide (2 ^ 32 ≤ limit) || decide ((uid - low) % limit = 0) ||
    decide (uid - (uid - low) % limit + limit ≤ 2 ^ 32)

variable {high step : Nat}

theorem lt_of_any_rangesUp (fuel start uid : Nat)
    (h : ∃ set ∈ rangesUp high step fuel start, set.any (server.inRange uid) = true) :
    uid < high := by
  induction fuel generalizing start with
  | zero => simp [rangesUp] at h
  | succ fuel ih =>
    rw [rangesUp] at h
    by_cases hend : high ≤ start
    · simp [if_pos hend] at h
    · rw [if_neg hend] at h
      obtain ⟨set, hset, hnamed⟩ := h
      rcases List.mem_cons.mp hset with rfl | hset
      · simp only [List.any_cons, List.any_nil, Bool.or_false, Server.inRange, Bool.and_eq_true,
          decide_eq_true_eq] at hnamed
        omega
      · exact ih (start + step) ⟨set, hset, hnamed⟩

theorem any_rangesUp (hstep : 0 < step) (hwide : step < 2 ^ 32)
    (hhigh : high < 2 ^ 32) (fuel start uid : Nat) (hfuel : high ≤ start + fuel)
    (huid : start ≤ uid) :
    (∃ set ∈ rangesUp high step fuel start, set.any (server.inRange uid) = true) ↔
      uid < high ∧ reached start step uid = true := by
  have hreached : ∀ start, reached start step uid = true ↔
      (uid - start) % step = 0 ∨ uid - (uid - start) % step + step ≤ 2 ^ 32 := by
    intro start
    simp only [reached, Bool.or_eq_true, decide_eq_true_eq]
    omega
  rw [hreached]
  induction fuel generalizing start with
  | zero =>
    simp only [rangesUp, List.not_mem_nil, false_and, exists_false, false_iff]
    omega
  | succ fuel ih =>
    rw [rangesUp]
    by_cases hend : high ≤ start
    · rw [if_pos hend]
      simp only [List.not_mem_nil, false_and, exists_false, false_iff]
      omega
    · have hrest := @lt_of_any_rangesUp δ server high step fuel (start + step) uid
      rw [if_neg hend]
      simp only [List.mem_cons, or_and_right, exists_or, exists_eq_left, List.any_cons, List.any_nil,
        Bool.or_false, Server.inRange, Bool.and_eq_true, decide_eq_true_eq]
      by_cases hwraps : 2 ^ 32 < start + step
      · -- the last range, since the next would start above every bound
        have hlast := rangeEnd_wraps hwraps hwide (by omega)
        have hnone : rangesUp high step fuel (start + step) = [] := by
          cases fuel with
          | zero => rfl
          | succ fuel => rw [rangesUp, if_pos (by omega)]
        rw [hlast, hnone]
        simp only [List.not_mem_nil, false_and, exists_false, or_false]
        generalize 2 ^ 32 = bound at *
        constructor
        · intro h
          have : uid - start = 0 := by omega
          rw [this, Nat.zero_mod]
          omega
        · intro h
          have hmod : (uid - start) % step = uid - start := Nat.mod_eq_of_lt (by omega)
          omega
      · have hlast := @rangeEnd_eq start step (by omega) (by omega)
        rw [hlast]
        by_cases hfirst : uid < start + step
        · have hmod : (uid - start) % step = uid - start := Nat.mod_eq_of_lt (by omega)
          constructor
          · intro h
            rcases h with h | h
            · omega
            · have := hrest h
              omega
          · intro h
            exact .inl (by omega)
        · have hshift : (uid - (start + step)) % step = (uid - start) % step := by
            have : uid - start = uid - (start + step) + step := by omega
            rw [this, Nat.add_mod_right]
          have hlater := ih (start + step) (by omega) (by omega)
          rw [hshift] at hlater
          constructor
          · intro h
            rcases h with h | h
            · omega
            · exact hlater.mp h
          · intro h
            exact .inr (hlater.mpr h)

variable {limit uid : Nat}

theorem any_rangeSets {low : Nat} (hhigh : high < 2 ^ 32) (hlow : low ≤ uid) :
    (∃ set ∈ rangeSets low high limit, set.any (server.inRange uid) = true) ↔
      uid < high ∧ reached low limit uid = true := by
  unfold rangeSets
  by_cases hempty : high ≤ low
  · rw [if_pos hempty]
    simp only [List.not_mem_nil, false_and, exists_false, false_iff]
    omega
  · rw [if_neg hempty]
    by_cases hlimit : 0 < limit ∧ limit < 2 ^ 32
    · rw [if_pos hlimit]
      exact any_rangesUp hlimit.1 hlimit.2 hhigh _ low uid (by omega) hlow
    · have hall : reached low limit uid = true := by
        simp only [reached, Bool.or_eq_true, decide_eq_true_eq]
        omega
      rw [if_neg hlimit]
      rw [any_rangesUp (by omega) (by omega) hhigh _ low uid (by omega) hlow, hall]
      refine and_congr_right fun huid => iff_of_true ?_ rfl
      have hmod : (uid - low) % (high - low) = uid - low := Nat.mod_eq_of_lt (by omega)
      simp only [reached, Bool.or_eq_true, decide_eq_true_eq, hmod]
      omega

theorem any_listedSets {uids : List Nat} :
    (∃ set ∈ listedSets uids limit, set.any (server.inRange uid) = true) ↔ uid ∈ uids := by
  unfold listedSets
  by_cases hempty : uids = []
  · subst hempty
    simp [chunks, chunksFrom]
  · have hpos : 0 < if limit = 0 then uids.length else limit := by
      have := List.length_pos_iff.mpr hempty
      split <;> omega
    simp only [List.mem_map, exists_exists_and_eq_and, Server.any_uidSetSpec]
    rw [← List.mem_flatten, flatten_chunks hpos]

theorem mem_collect {f : ServerMessage δ → FetchRow δ} {ask : UidSet → Pass δ (List (FetchRow δ))}
    (h : ∀ set, server.gives (ask set) = (server.named set).map f) {sets : List UidSet}
    {row : FetchRow δ} :
    row ∈ server.gives (Pass.collect ask sets) ↔
      ∃ m ∈ server.messages, (∃ set ∈ sets, set.any (server.inRange m.uid) = true) ∧ row = f m := by
  rw [Server.gives_collect]
  simp only [h, List.mem_flatMap, List.mem_map, Server.mem_named]
  constructor
  · rintro ⟨set, hset, m, ⟨hm, hnamed⟩, rfl⟩
    exact ⟨m, hm, ⟨set, hset, hnamed⟩, rfl⟩
  · rintro ⟨m, hm, ⟨set, hset, hnamed⟩, rfl⟩
    exact ⟨set, hset, m, ⟨hm, hnamed⟩, rfl⟩

end Sets

def Server.flagged (server : Server δ) (on : Binding) (m : ServerMessage δ) : MailStateChange :=
  stateChange m.state on.mailbox server.uidValidity

section Resync

variable {server : Server δ} (on : Binding) {syncedBelow limit : Nat} (since : Option CalendarDate)

/-- Whether a resync names a message: one of the window, or one its ranges reach. -/
def resyncNames (since : Option CalendarDate) (syncedBelow limit : Nat) (m : ServerMessage δ) :
    Bool :=
  match since with
  | some _ => inWindow since m
  | none => reached (if syncedBelow ≤ m.uid then syncedBelow else 1) limit m.uid

theorem resyncSets_eq (hbelow : syncedBelow < 2 ^ 32) {m : ServerMessage δ} (hm : m ∈ server.messages) :
    (m.uid < syncedBelow → ((∃ set ∈ (server.gives (resyncSets since syncedBelow (server.next on) limit)).1,
        set.any (server.inRange m.uid) = true) ↔ resyncNames since syncedBelow limit m = true)) ∧
    (syncedBelow ≤ m.uid → ((∃ set ∈ (server.gives (resyncSets since syncedBelow (server.next on) limit)).2,
        set.any (server.inRange m.uid) = true) ↔ resyncNames since syncedBelow limit m = true)) := by
  have hnext := @Server.uid_lt_next δ server on m hm
  have hpos := server.uid_pos m hm
  cases since with
  | none =>
    constructor
    · intro hheld
      simp only [resyncSets, Server.gives_pure, any_rangeSets hbelow hpos, resyncNames]
      rw [if_neg (by omega), and_iff_right hheld]
    · intro hnew
      simp only [resyncSets, Server.gives_pure, any_rangeSets Server.next_lt hnew, resyncNames]
      rw [if_pos hnew, and_iff_right hnext]
  | some floor =>
    have hwindow := @Server.uid_mem_since δ server floor m hm
    simp only [resyncSets, Server.gives_bind, Server.gives_pure, Server.gives_searchSince,
      any_listedSets, List.mem_filter, Server.mem_ascending, hwindow, decide_eq_true_eq,
      Bool.and_eq_true, resyncNames]
    constructor
    · intro hheld
      exact and_iff_left hheld
    · intro hnew
      exact and_iff_left ⟨hnew, hnext⟩

/-- What the page of a resync holds. -/
structure Resynced (server : Server δ) (on : Binding) (syncedBelow : Nat)
    (P : ServerMessage δ → Bool) (page : SyncPage (Content δ)) : Prop where
  kind : page.kind = .snapshot
  changed : ∀ x, x ∈ page.changed ↔
    ∃ m ∈ server.messages, (syncedBelow ≤ m.uid ∧ P m = true) ∧ x = server.stored on m
  patched : ∀ c, c ∈ page.patched ↔
    ∃ m ∈ server.messages, (m.uid < syncedBelow ∧ P m = true) ∧ c = server.flagged on m
  present : ∀ k, k ∈ page.present ↔
    ∃ m ∈ server.messages, P m = true ∧ (server.stored on m).key = k
  removed : page.removed = []
  nextPage : page.nextPage = none

theorem resynced (hbelow : syncedBelow < 2 ^ 32) (nextCursor : SyncState) :
    Resynced server on syncedBelow (resyncNames since syncedBelow limit) (server.gives
      (resyncPage on server.uidValidity nextCursor syncedBelow (server.next on) since limit)) := by
  have hsets := fun (m : ServerMessage δ) (hm : m ∈ server.messages) =>
    @resyncSets_eq δ server on syncedBelow limit since hbelow m hm
  have hstate : ∀ set, server.gives (Pass.fetchState set) = (server.named set).map ServerMessage.state := fun _ => rfl
  have hmeta := fun set => @gives_uidFetchMetadata δ server on.session set
  set P := @resyncNames δ since syncedBelow limit
  unfold resyncPage
  simp only [Server.gives_bind, Server.gives_pure]
  set sets := server.gives (resyncSets since syncedBelow (server.next on) limit) with hdef
  have hchanged : ∀ x, x ∈ (newestFirst ((server.gives
      (Pass.collect (uidFetchMetadata on.session) sets.2)).filter fun row =>
        row.envelope.isSome && decide (syncedBelow ≤ row.uid))).map
          (fun row => messageFromFetch row on.mailbox server.uidValidity) ↔
      ∃ m ∈ server.messages, (syncedBelow ≤ m.uid ∧ P m = true) ∧ x = server.stored on m := by
    intro x
    simp only [List.mem_map, newestFirst, (List.perm_insertionSort _ _).mem_iff, List.mem_filter,
      mem_collect hmeta, Bool.and_eq_true, decide_eq_true_eq]
    constructor
    · rintro ⟨row, ⟨⟨m, hm, hnamed, rfl⟩, -, hnew⟩, rfl⟩
      have hnew : syncedBelow ≤ m.uid := hnew
      exact ⟨m, hm, ⟨hnew, ((hsets m hm).2 hnew).mp hnamed⟩, rfl⟩
    · rintro ⟨m, hm, ⟨hnew, hnamed⟩, rfl⟩
      exact ⟨m.settled, ⟨⟨m, hm, ((hsets m hm).2 hnew).mpr hnamed, rfl⟩, rfl, hnew⟩, rfl⟩
  have hrows : ∀ row, row ∈ (server.gives (Pass.collect Pass.fetchState sets.1)).filter
      (fun row => row.uid < syncedBelow) ↔
      ∃ m ∈ server.messages, (m.uid < syncedBelow ∧ P m = true) ∧ row = m.state := by
    intro row
    simp only [List.mem_filter, mem_collect hstate, decide_eq_true_eq]
    constructor
    · rintro ⟨⟨m, hm, hnamed, rfl⟩, hheld⟩
      have hheld : m.uid < syncedBelow := hheld
      exact ⟨m, hm, ⟨hheld, ((hsets m hm).1 hheld).mp hnamed⟩, rfl⟩
    · rintro ⟨m, hm, ⟨hheld, hnamed⟩, rfl⟩
      exact ⟨⟨m, hm, ((hsets m hm).1 hheld).mpr hnamed, rfl⟩, hheld⟩
  refine ⟨rfl, hchanged, ?_, ?_, rfl, rfl⟩
  · intro c
    rw [List.mem_map]
    constructor
    · rintro ⟨row, hrow, rfl⟩
      obtain ⟨m, hm, hwanted, rfl⟩ := (hrows row).mp hrow
      exact ⟨m, hm, hwanted, rfl⟩
    · rintro ⟨m, hm, hwanted, rfl⟩
      exact ⟨m.state, (hrows _).mpr ⟨m, hm, hwanted, rfl⟩, rfl⟩
  · intro k
    rw [List.mem_append]
    constructor
    · rintro (h | h)
      · obtain ⟨row, hrow, rfl⟩ := List.mem_map.mp h
        obtain ⟨m, hm, hwanted, rfl⟩ := (hrows row).mp hrow
        exact ⟨m, hm, hwanted.2, rfl⟩
      · obtain ⟨x, hx, rfl⟩ := List.mem_map.mp h
        obtain ⟨m, hm, hwanted, rfl⟩ := (hchanged x).mp hx
        exact ⟨m, hm, hwanted.2, rfl⟩
    · rintro ⟨m, hm, hwanted, rfl⟩
      by_cases hbelow : m.uid < syncedBelow
      · exact .inl (List.mem_map.mpr ⟨m.state, (hrows _).mpr ⟨m, hm, ⟨hbelow, hwanted⟩, rfl⟩, rfl⟩)
      · exact .inr (List.mem_map.mpr ⟨server.stored on m, (hchanged _).mpr ⟨m, hm, ⟨by omega, hwanted⟩, rfl⟩, rfl⟩)

def resyncLeaves (server : Server δ) (on : Binding) (syncedBelow : Nat)
    (P : ServerMessage δ → Bool) (s : Told (Content δ)) (k : ProviderKey) : Told (Content δ) :=
  match (server.find on k).filter P with
  | some m =>
    if syncedBelow ≤ m.uid then Told.asSent [server.stored on m] false
    else s.change (projectStateChange (server.flagged on m))
  | none => if s.object.isSome then Told.nothing else s

/-- Messages of the server given whole, and others of which the state is given. -/
structure Given (server : Server δ) (on : Binding) (full moved : ServerMessage δ → Prop)
    (changed : List (Message (Content δ))) (patched : List MailStateChange) : Prop where
  changed : ∀ x, x ∈ changed ↔ ∃ m ∈ server.messages, full m ∧ x = server.stored on m
  patched : ∀ c, c ∈ patched ↔ ∃ m ∈ server.messages, moved m ∧ c = server.flagged on m
  apart : ∀ m, full m → ¬moved m

section Given

variable {on} {full moved : ServerMessage δ → Prop} {changed : List (Message (Content δ))}
  {patched : List MailStateChange}

theorem Server.stored_key_inj {m m' : ServerMessage δ} (hm : m ∈ server.messages) (hm' : m' ∈ server.messages)
    (h : (server.stored on m).key = (server.stored on m').key) : m = m' :=
  Server.uid_injective hm hm' (Server.uid_of_key h)

theorem Given.alike (h : Given server on full moved changed patched) :
    ∀ x ∈ changed, ∀ y ∈ changed, x.key = y.key → x = y := by
  intro x hx y hy he
  obtain ⟨m, hm, -, rfl⟩ := (h.changed x).mp hx
  obtain ⟨m', hm', -, rfl⟩ := (h.changed y).mp hy
  rw [Server.stored_key_inj hm hm' he]

theorem Given.keys_apart (h : Given server on full moved changed patched) :
    ∀ x ∈ changed, x.key ∉ patched.map MailStateChange.key := by
  intro x hx hmem
  obtain ⟨m, hm, hfull, rfl⟩ := (h.changed x).mp hx
  obtain ⟨c, hc, he⟩ := List.mem_map.mp hmem
  obtain ⟨m', hm', hmoved, rfl⟩ := (h.patched c).mp hc
  rw [Server.stored_key_inj hm' hm he] at hmoved
  exact h.apart m hfull hmoved

theorem Given.leaves [DecidablePred full] [DecidablePred moved] (h : Given server on full moved changed patched)
    (s : Told (Content δ)) (k : ProviderKey) :
    (latest Message.key changed k).elim ((changesTo patched k).foldl Told.change s)
        (fun m => Told.asSent [m] false) = (server.find on k).elim s fun m =>
      if full m then Told.asSent [server.stored on m] false
      else if moved m then s.change (projectStateChange (server.flagged on m)) else s := by
  cases hfind : server.find on k with
  | none =>
    have hnone := Server.find_eq_none.mp hfind
    have hlatest : latest Message.key changed k = none := by
      rw [latest_eq_none]
      intro x hx
      obtain ⟨m, hm, -, rfl⟩ := (h.changed x).mp hx
      exact hnone m hm
    have hchanges : changesTo patched k = [] := by
      apply changesTo_eq_nil
      intro hmem
      obtain ⟨c, hc, he⟩ := List.mem_map.mp hmem
      obtain ⟨m, hm, -, rfl⟩ := (h.patched c).mp hc
      exact hnone m hm he
    rw [hlatest, hchanges]
    rfl
  | some m =>
    obtain ⟨hm, rfl⟩ := Server.find_eq_some.mp hfind
    show _ = if full m then _ else _
    by_cases hfull : full m
    · have hmem := (h.changed _).mpr ⟨m, hm, hfull, rfl⟩
      rw [latest_of_unique hmem fun x hx he => h.alike x hx _ hmem he, if_pos hfull]
      rfl
    · have hlatest : latest Message.key changed (server.stored on m).key = none := by
        rw [latest_eq_none]
        intro x hx he
        obtain ⟨m', hm', hfull', rfl⟩ := (h.changed x).mp hx
        exact hfull (Server.stored_key_inj hm' hm he ▸ hfull')
      have hsame : ∀ c ∈ changesTo patched (server.stored on m).key,
          moved m ∧ c = projectStateChange (server.flagged on m) := by
        intro c hc
        obtain ⟨hmapped, he⟩ := List.mem_filter.mp hc
        obtain ⟨p, hp, rfl⟩ := List.mem_map.mp hmapped
        obtain ⟨m', hm', hmoved, rfl⟩ := (h.patched p).mp hp
        obtain rfl := Server.stored_key_inj hm' hm (of_decide_eq_true he)
        exact ⟨hmoved, rfl⟩
      rw [hlatest, if_neg hfull]
      by_cases hmoved : moved m
      · have hthere : projectStateChange (server.flagged on m) ∈ changesTo patched (server.stored on m).key :=
          List.mem_filter.mpr ⟨List.mem_map.mpr ⟨_, (h.patched _).mpr ⟨m, hm, hmoved, rfl⟩, rfl⟩, decide_eq_true rfl⟩
        rw [if_pos hmoved]
        exact Told.foldl_same hthere (fun c hc => (hsame c hc).2) rfl s
      · have hnil : changesTo patched (server.stored on m).key = [] :=
          List.eq_nil_iff_forall_not_mem.mpr fun c hc => hmoved (hsame c hc).1
        rw [if_neg hmoved, hnil]
        rfl

end Given

theorem Resynced.told [MailContent δ] {P : ServerMessage δ → Bool} {page : SyncPage (Content δ)}
    (h : Resynced server on syncedBelow P page) (kind : StoreKind) (window : SyncWindow)
    (cell : ScopeCell (Content δ)) (total : Option Nat) (chunkSize : Nat) (cursor : SyncState)
    (k : ProviderKey) :
    (streamed kind window cell (splitPage .reconcile page.changed page.patched page.removed
        page.present total chunkSize ++ [.reconcileLast [] [] total cursor])).told k =
      resyncLeaves server on syncedBelow P (cell.told k) k := by
  have hgiven : Given server on (fun m => syncedBelow ≤ m.uid ∧ P m = true)
      (fun m => m.uid < syncedBelow ∧ P m = true) page.changed page.patched :=
    ⟨h.changed, h.patched, fun m hfull hmoved => by omega⟩
  rw [told_reconcilePages]
  · rw [changed_splitPage, patched_splitPage, removed_splitPage, covers_splitPage, h.removed, if_pos rfl,
      if_neg List.not_mem_nil, Told.sentOr_eq_elim, hgiven.leaves]
    unfold resyncLeaves
    cases hfind : server.find on k with
    | none =>
      have hpresent : k ∉ page.present := by
        intro hk
        obtain ⟨m, hm, -, he⟩ := (h.present k).mp hk
        exact Server.find_eq_none.mp hfind m hm he
      simp [Told.close, hpresent, Option.filter]
    | some m =>
      obtain ⟨hm, rfl⟩ := Server.find_eq_some.mp hfind
      have hpresent : (server.stored on m).key ∈ page.present ↔ P m = true := by
        rw [h.present]
        constructor
        · rintro ⟨m', hm', hwindow, he⟩
          exact Server.stored_key_inj hm' hm he ▸ hwindow
        · exact fun hwindow => ⟨m, hm, hwindow, rfl⟩
      by_cases hwindow : P m = true
      · by_cases hbelow : syncedBelow ≤ m.uid
        · simp [Told.close, hpresent, hwindow, hbelow, Option.filter]
        · simp [Told.close, hpresent, hwindow, hbelow, Option.filter, Nat.lt_of_not_le hbelow]
      · simp [Told.close, hpresent, hwindow, Option.filter]
  · intro c hc
    have hmem := mem_splitPage _ _ _ _ _ _ _ hc
    exact ⟨hmem.1, hmem.2.1⟩
  · intro c hc x hx y hy
    have hsub := (mem_splitPage _ _ _ _ _ _ _ hc).2.2
    exact hgiven.alike x (hsub.subset hx) y (hsub.subset hy)
  · rw [changed_splitPage, patched_splitPage, removed_splitPage, h.removed]
    exact fun x hx => ⟨List.not_mem_nil, hgiven.keys_apart x hx⟩

end Resync

/-! ## A QRESYNC delta -/

section Delta

variable {server : Server δ} (on : Binding) (sinceModseq syncedBelow : Nat)

/-- Whether a delta reports the state of a held message: it moved, or it is what `n:*` names where
nothing has arrived from `n` on. -/
def Server.reports (server : Server δ) (on : Binding) (sinceModseq syncedBelow : Nat)
    (m : ServerMessage δ) : Bool :=
  decide (sinceModseq < m.modseq) ||
    (decide (syncedBelow < server.next on) && decide (server.highest < syncedBelow) &&
      decide (m.uid = server.highest))

def Server.gone (server : Server δ) (sinceModseq syncedBelow : Nat) : List Nat :=
  (server.vanished.filter fun v =>
    decide (sinceModseq < v.2) && (decide (1 ≤ v.1) && decide (v.1 < syncedBelow))).map Prod.fst

structure Delta (server : Server δ) (on : Binding) (sinceModseq syncedBelow : Nat)
    (page : SyncPage (Content δ)) : Prop where
  kind : page.kind = .delta
  changed : ∀ x, x ∈ page.changed ↔
    ∃ m ∈ server.messages, syncedBelow ≤ m.uid ∧ x = server.stored on m
  patched : ∀ c, c ∈ page.patched ↔ ∃ m ∈ server.messages, (m.uid < syncedBelow ∧
    server.reports on sinceModseq syncedBelow m = true) ∧ c = server.flagged on m
  removed : ∀ k, k ∈ page.removed ↔ ∃ uid ∈ server.gone sinceModseq syncedBelow,
    messageKey on.mailbox server.uidValidity uid = k
  nextPage : page.nextPage = none

variable {row : FetchRow δ}

theorem mem_changedBelow_rows : row ∈ (server.gives (changedBelow sinceModseq syncedBelow)).1 ↔
      ∃ m ∈ server.messages, m.uid < syncedBelow ∧ sinceModseq < m.modseq ∧ row = m.state := by
  unfold changedBelow
  by_cases hsynced : 1 < syncedBelow
  · rw [if_pos hsynced]
    show row ∈ ((server.named [.span 1 (syncedBelow - 1)]).filter fun m =>
      decide (sinceModseq < m.modseq)).map ServerMessage.state ↔ _
    simp only [List.mem_map, List.mem_filter, Server.mem_named, List.any_cons, List.any_nil,
      Bool.or_false, Server.inRange, Bool.and_eq_true, decide_eq_true_eq]
    constructor
    · rintro ⟨m, ⟨⟨hm, hrange⟩, hmodseq⟩, rfl⟩
      exact ⟨m, hm, by omega, hmodseq, rfl⟩
    · rintro ⟨m, hm, hbelow, hmodseq, rfl⟩
      have := server.uid_pos m hm
      exact ⟨m, ⟨⟨hm, by omega⟩, hmodseq⟩, rfl⟩
  · rw [if_neg hsynced]
    refine iff_of_false List.not_mem_nil ?_
    rintro ⟨m, hm, hbelow, -⟩
    have := server.uid_pos m hm
    omega

theorem mem_changedBelow_vanished {uid : Nat} : uid ∈ (server.gives (changedBelow sinceModseq syncedBelow)).2 ↔
      uid ∈ server.gone sinceModseq syncedBelow := by
  unfold changedBelow Server.gone
  by_cases hsynced : 1 < syncedBelow
  · rw [if_pos hsynced]
    show uid ∈ (server.vanished.filter fun v => decide (sinceModseq < v.2) &&
      [UidRange.span 1 (syncedBelow - 1)].any (server.inRange v.1)).map Prod.fst ↔ _
    simp only [List.mem_map, List.mem_filter, List.any_cons, List.any_nil, Bool.or_false,
      Server.inRange, Bool.and_eq_true, decide_eq_true_eq]
    constructor
    · rintro ⟨v, ⟨hv, hmodseq, hrange⟩, rfl⟩
      exact ⟨v, ⟨hv, hmodseq, by omega⟩, rfl⟩
    · rintro ⟨v, ⟨hv, hmodseq, hrange⟩, rfl⟩
      exact ⟨v, ⟨hv, hmodseq, by omega⟩, rfl⟩
  · rw [if_neg hsynced]
    refine iff_of_false List.not_mem_nil ?_
    intro h
    obtain ⟨v, hv, -⟩ := List.mem_map.mp h
    have := (List.mem_filter.mp hv).2
    simp only [Bool.and_eq_true, decide_eq_true_eq] at this
    omega

theorem mem_arrivalsFrom : row ∈ server.gives (arrivalsFrom on syncedBelow (server.next on)) ↔
      ∃ m ∈ server.messages, (syncedBelow ≤ m.uid ∨ (syncedBelow < server.next on ∧
        server.highest < syncedBelow ∧ m.uid = server.highest)) ∧ row = m.settled := by
  unfold arrivalsFrom
  by_cases hnew : syncedBelow < server.next on
  · rw [if_pos hnew, gives_uidFetchMetadata]
    simp only [List.mem_map, Server.mem_named, List.any_cons, List.any_nil, Bool.or_false,
      Server.inRange, Bool.and_eq_true, decide_eq_true_eq]
    constructor
    · rintro ⟨m, ⟨hm, hrange⟩, rfl⟩
      have := Server.uid_le_highest hm
      exact ⟨m, hm, by omega, rfl⟩
    · rintro ⟨m, hm, hcase, rfl⟩
      have := Server.uid_le_highest hm
      exact ⟨m, ⟨hm, by omega⟩, rfl⟩
  · rw [if_neg hnew]
    refine iff_of_false List.not_mem_nil ?_
    rintro ⟨m, hm, hcase, -⟩
    have := @Server.uid_lt_next δ server on m hm
    omega

theorem delta (nextCursor : SyncState) :
    Delta server on sinceModseq syncedBelow (server.gives (deltaPage on server.uidValidity nextCursor
      sinceModseq syncedBelow (server.next on))) := by
  unfold deltaPage
  simp only [Server.gives_bind, Server.gives_pure]
  refine ⟨rfl, ?_, ?_, ?_, rfl⟩
  · intro x
    simp only [newestFirst, List.mem_map, List.mem_filter, (List.perm_insertionSort _ _).mem_iff,
      mem_arrivalsFrom, Bool.and_eq_true, decide_eq_true_eq]
    constructor
    · rintro ⟨row, ⟨⟨m, hm, -, rfl⟩, -, hnew⟩, rfl⟩
      exact ⟨m, hm, hnew, rfl⟩
    · rintro ⟨m, hm, hnew, rfl⟩
      exact ⟨m.settled, ⟨⟨m, hm, .inl hnew, rfl⟩, rfl, hnew⟩, rfl⟩
  · intro c
    simp only [newestFirst, List.mem_map, List.mem_append, List.mem_filter,
      (List.perm_insertionSort _ _).mem_iff, mem_arrivalsFrom, mem_changedBelow_rows,
      Server.reports, Bool.or_eq_true, Bool.and_eq_true, decide_eq_true_eq]
    constructor
    · rintro ⟨row, ⟨⟨m, hm, hcase, rfl⟩, hheld⟩ | ⟨m, hm, hbelow, hmoved, rfl⟩, rfl⟩
      · have hheld : ¬syncedBelow ≤ m.uid := by
          intro hnew
          have : syncedBelow ≤ m.settled.uid := hnew
          have hsettled : m.settled.envelope.isSome = true := rfl
          simp [this, hsettled] at hheld
        exact ⟨m, hm, ⟨by omega, .inr (by omega)⟩, rfl⟩
      · exact ⟨m, hm, ⟨hbelow, .inl hmoved⟩, rfl⟩
    · rintro ⟨m, hm, ⟨hbelow, hmoved | htrap⟩, rfl⟩
      · exact ⟨m.state, .inr ⟨m, hm, hbelow, hmoved, rfl⟩, rfl⟩
      · refine ⟨m.settled, .inl ⟨⟨m, hm, .inr (by omega), rfl⟩, ?_⟩, rfl⟩
        have : ¬syncedBelow ≤ m.settled.uid := by
          show ¬syncedBelow ≤ m.uid
          omega
        simp [this]
  · intro k
    simp only [List.mem_map, mem_changedBelow_vanished]

def deltaLeaves (server : Server δ) (on : Binding) (sinceModseq syncedBelow : Nat)
    (window : SyncWindow) (s : Told (Content δ)) (k : ProviderKey) : Told (Content δ) :=
  match server.find on k with
  | some m =>
    if syncedBelow ≤ m.uid then
      if window.admits (server.stored on m).date then Told.asSent [server.stored on m] false else s
    else if server.reports on sinceModseq syncedBelow m then
      s.change (projectStateChange (server.flagged on m))
    else s
  | none =>
    if ∃ uid ∈ server.gone sinceModseq syncedBelow, messageKey on.mailbox server.uidValidity uid = k
    then Told.nothing else s

theorem Delta.told [MailContent δ] {page : SyncPage (Content δ)}
    (h : Delta server on sinceModseq syncedBelow page) (kind : StoreKind) (window : SyncWindow)
    (cell : ScopeCell (Content δ)) (total : Option Nat) (chunkSize : Nat) (cursor : SyncState)
    (k : ProviderKey) :
    (streamed kind window cell (splitPage .additive page.changed page.patched page.removed
        page.present total chunkSize ++ [.additive [] [] total cursor])).told k =
      deltaLeaves server on sinceModseq syncedBelow window (cell.told k) k := by
  have hstays : ∀ m ∈ server.messages, (server.stored on m).key ∉ page.removed := by
    intro m hm hmem
    obtain ⟨uid, huid, he⟩ := (h.removed _).mp hmem
    obtain ⟨v, hv, rfl⟩ := List.mem_map.mp huid
    have hsame : v.1 = m.uid := messageKey_injective on.mailbox server.uidValidity he
    apply server.vanished_gone v (List.mem_filter.mp hv).1
    rw [hsame]
    exact List.mem_map.mpr ⟨m, hm, rfl⟩
  have hgiven : Given server on (fun m => syncedBelow ≤ m.uid)
      (fun m => m.uid < syncedBelow ∧ server.reports on sinceModseq syncedBelow m = true)
      page.changed page.patched :=
    ⟨h.changed, h.patched, fun m hfull hmoved => by omega⟩
  have hwithin : Given server on (fun m => syncedBelow ≤ m.uid ∧ window.admits (server.stored on m).date = true)
      (fun m => m.uid < syncedBelow ∧ server.reports on sinceModseq syncedBelow m = true)
      (page.changed.filter fun m => window.admits m.date) page.patched := by
    refine ⟨fun x => ?_, h.patched, fun m hfull hmoved => by omega⟩
    rw [List.mem_filter, h.changed]
    constructor
    · rintro ⟨⟨m, hm, hnew, rfl⟩, hdate⟩
      exact ⟨m, hm, ⟨hnew, hdate⟩, rfl⟩
    · rintro ⟨m, hm, ⟨hnew, hdate⟩, rfl⟩
      exact ⟨⟨m, hm, hnew, rfl⟩, hdate⟩
  rw [told_additivePages]
  · rw [changed_splitPage, patched_splitPage, removed_splitPage, Told.sentOr_eq_elim, hwithin.leaves]
    unfold deltaLeaves
    cases hfind : server.find on k with
    | none => simp only [Option.elim_none, h.removed]
    | some m =>
      obtain ⟨hm, rfl⟩ := Server.find_eq_some.mp hfind
      rw [if_neg (hstays m hm)]
      by_cases hnew : syncedBelow ≤ m.uid
      · simp [hnew, Nat.not_lt.mpr hnew]
      · simp [hnew, Nat.lt_of_not_le hnew]
  · exact fun c hc => (mem_splitPage _ _ _ _ _ _ _ hc).1
  · intro c hc x hx y hy
    have hsub := (mem_splitPage _ _ _ _ _ _ _ hc).2.2
    exact hgiven.alike x (hsub.subset hx) y (hsub.subset hy)
  · rw [changed_splitPage, patched_splitPage, removed_splitPage]
    intro x hx
    obtain ⟨m, hm, -, rfl⟩ := (h.changed x).mp hx
    exact ⟨hstays m hm, hgiven.keys_apart _ hx⟩

end Delta

end Imap
end SyncEngine
