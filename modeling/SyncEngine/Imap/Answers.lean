import SyncEngine.Imap.Stream

/-!
# A server that does not change

What the parts of a pass make of a server that answers every command from the same mailbox: the rows
they end with, and the chunks they send on the way.
-/

namespace SyncEngine
namespace Imap

open Mail

variable {δ α β : Type}

namespace Server

variable (server : Server δ)

def sends (p : Pass δ α) : List (EmailChunk (Content δ)) :=
  (p.answered server.answer).1.filterMap Request.chunk?

/-- The value it ends with. -/
def gives (p : Pass δ α) : α := (p.answered server.answer).2

variable (a : α)

@[simp]
theorem sends_pure : server.sends (pure a : Pass δ α) = [] := rfl

@[simp]
theorem gives_pure : server.gives (pure a : Pass δ α) = a := rfl

variable (p : Pass δ α)

@[simp]
theorem sends_bind (f : α → Pass δ β) : server.sends (p >>= f) = server.sends p ++ server.sends (f (server.gives p)) := by
  unfold sends
  rw [Dialogue.answered_bind, List.filterMap_append]
  rfl

@[simp]
theorem gives_bind (f : α → Pass δ β) : server.gives (p >>= f) = server.gives (f (server.gives p)) := by
  unfold gives
  rw [Dialogue.answered_bind]

/-! ## The commands -/

@[simp]
theorem sends_select (condstore : Bool) : server.sends (Pass.select condstore) = [] := rfl

@[simp]
theorem sends_highestUid : server.sends Pass.highestUid = [] := rfl

variable (floor : CalendarDate)

@[simp]
theorem sends_searchSince : server.sends (Pass.searchSince floor) = [] := rfl

@[simp]
theorem gives_searchSince : server.gives (Pass.searchSince floor) = server.since floor :=
  rfl

variable (set : UidSet)

@[simp]
theorem sends_fetch : server.sends (Pass.fetch set) = [] := rfl

@[simp]
theorem gives_fetch : server.gives (Pass.fetch set) = (server.named set).map ServerMessage.metadata :=
  rfl

@[simp]
theorem sends_fetchState : server.sends (Pass.fetchState set) = [] := rfl

@[simp]
theorem gives_fetchState : server.gives (Pass.fetchState set) = (server.named set).map ServerMessage.state :=
  rfl

@[simp]
theorem sends_fetchStructure : server.sends (Pass.fetchStructure set) = [] := rfl

@[simp]
theorem gives_fetchStructure :
    server.gives (Pass.fetchStructure set) = (server.named set).map ServerMessage.bodyStructure :=
  rfl

@[simp]
theorem sends_changedSince (modseq : Nat) : server.sends (Pass.changedSince set modseq) = [] :=
  rfl

@[simp]
theorem sends_commit (chunk : EmailChunk (Content δ)) : server.sends (Pass.commit chunk) = [chunk] :=
  rfl

theorem gives_collect (ask : UidSet → Pass δ (List (FetchRow δ))) (sets : List UidSet) :
    server.gives (Pass.collect ask sets) = sets.flatMap fun set => server.gives (ask set) := by
  induction sets with
  | nil => rfl
  | cons set sets ih =>
    rw [Pass.collect, gives_bind, gives_bind, gives_pure, ih, List.flatMap_cons]

theorem sends_collect {ask : UidSet → Pass δ (List (FetchRow δ))}
    (h : ∀ set, server.sends (ask set) = []) (sets : List UidSet) :
    server.sends (Pass.collect ask sets) = [] := by
  induction sets with
  | nil => rfl
  | cons set sets ih =>
    rw [Pass.collect, sends_bind, sends_bind, sends_pure, h, ih]
    rfl

/-! ## The messages a set names -/

variable {server}

variable {m : ServerMessage δ}

theorem uid_injective {m' : ServerMessage δ} (hm : m ∈ server.messages)
    (hm' : m' ∈ server.messages) (h : m.uid = m'.uid) : m = m' :=
  List.inj_on_of_nodup_map server.uids_nodup hm hm' h

theorem named_nodup : ((server.named set).map ServerMessage.uid).Nodup :=
  server.uids_nodup.sublist (List.Sublist.map _ List.filter_sublist)

theorem any_runsFrom (uid start stop : Nat) (rest : List Nat) (h : start ≤ stop) :
    (runsFrom start stop rest).any (server.inRange uid) = true ↔ (start ≤ uid ∧ uid ≤ stop) ∨ uid ∈ rest := by
  induction rest generalizing start stop with
  | nil => simp [runsFrom, inRange, Nat.min_eq_left h, Nat.max_eq_right h]
  | cons next rest ih =>
    unfold runsFrom
    by_cases hnext : next = stop + 1
    · rw [if_pos hnext, ih start next (by omega), List.mem_cons]
      constructor
      · rintro (hrun | hmem)
        · by_cases huid : uid = next
          · exact .inr (.inl huid)
          · exact .inl ⟨hrun.1, by omega⟩
        · exact .inr (.inr hmem)
      · rintro (hrun | rfl | hmem)
        · exact .inl ⟨hrun.1, by omega⟩
        · exact .inl ⟨by omega, Nat.le_refl _⟩
        · exact .inr hmem
    · rw [if_neg hnext, List.any_cons, Bool.or_eq_true, ih next next (Nat.le_refl _), List.mem_cons]
      have hself : (next ≤ uid ∧ uid ≤ next) ↔ uid = next := by omega
      simp only [inRange, Nat.min_eq_left h, Nat.max_eq_right h, Bool.and_eq_true, decide_eq_true_eq, hself]

theorem any_uidSetSpec (uid : Nat) (uids : List Nat) :
    (uidSetSpec uids).any (server.inRange uid) = true ↔ uid ∈ uids := by
  cases uids with
  | nil => simp [uidSetSpec]
  | cons next rest =>
    rw [uidSetSpec, any_runsFrom uid next next rest (Nat.le_refl _), List.mem_cons]
    have hself : (next ≤ uid ∧ uid ≤ next) ↔ uid = next := by omega
    rw [hself]

theorem mem_named {set : UidSet} : m ∈ server.named set ↔ m ∈ server.messages ∧ set.any (server.inRange m.uid) = true :=
  List.mem_filter

variable {uids : List Nat}

theorem mem_named_uidSetSpec : m ∈ server.named (uidSetSpec uids) ↔ m ∈ server.messages ∧ m.uid ∈ uids := by
  rw [mem_named, any_uidSetSpec]

variable {uid : Nat}

theorem mem_ascending : uid ∈ ascending uids ↔ uid ∈ uids := (List.perm_insertionSort _ _).mem_iff

theorem mem_descending : uid ∈ descending uids ↔ uid ∈ uids := (List.perm_insertionSort _ _).mem_iff

theorem mem_fetchStructures {session : Negotiated} {row : FetchRow δ} :
    row ∈ server.gives (fetchStructures session uids) ↔ ∃ m ∈ server.messages, m.uid ∈ uids ∧ row = m.bodyStructure := by
  unfold fetchStructures structureSets
  rw [gives_collect]
  simp only [gives_fetchStructure, List.mem_flatMap, List.mem_map, exists_exists_and_eq_and, mem_named_uidSetSpec]
  have hpos : 0 < max (session.withinMessageLimit structureBatch) 1 := by omega
  have hcover : ∀ uid, (∃ run ∈ chunks (max (session.withinMessageLimit structureBatch) 1)
      (ascending uids.dedup), uid ∈ run) ↔ uid ∈ uids := by
    intro uid
    rw [← List.mem_flatten, flatten_chunks hpos, mem_ascending, List.mem_dedup]
  constructor
  · rintro ⟨run, hrun, m, ⟨hm, huid⟩, rfl⟩
    exact ⟨m, hm, (hcover m.uid).mp ⟨run, hrun, huid⟩, rfl⟩
  · rintro ⟨m, hm, huid, rfl⟩
    obtain ⟨run, hrun, huid⟩ := (hcover m.uid).mpr huid
    exact ⟨run, hrun, m, ⟨hm, huid⟩, rfl⟩

theorem sends_fetchStructures (session : Negotiated) (uids : List Nat) :
    server.sends (fetchStructures session uids) = [] :=
  sends_collect server (fun _ => rfl) _

end Server

/-! ## Settling the attachment flag -/

def ServerMessage.settled (m : ServerMessage δ) : FetchRow δ :=
  { m.metadata with hasAttachment := if m.plain then some false else m.attachment }

theorem needsStructure_metadata (m : ServerMessage δ) : needsStructure m.metadata = !m.plain := by
  unfold needsStructure ServerMessage.metadata
  cases m.plain <;> rfl

def settleOne (row answer : FetchRow δ) : FetchRow δ :=
  match answer.hasAttachment with
  | none => row
  | some found =>
    if row.uid = answer.uid && needsStructure row then { row with hasAttachment := some found }
    else row

theorem uid_settleOne (row answer : FetchRow δ) : (settleOne row answer).uid = row.uid := by
  unfold settleOne
  cases answer.hasAttachment with
  | none => rfl
  | some found =>
    by_cases h : (decide (row.uid = answer.uid) && needsStructure row) = true
    · simp only [if_pos h]
    · simp only [if_neg h]

variable {row : FetchRow δ}

theorem settleOne_other {answer : FetchRow δ} (h : row.uid ≠ answer.uid) : settleOne row answer = row := by
  unfold settleOne
  cases answer.hasAttachment with
  | none => rfl
  | some found => simp [h]

theorem settleRow_eq_map {rows : List (FetchRow δ)} (answer : FetchRow δ) (h : (rows.map FetchRow.uid).Nodup) :
    settleRow rows answer = rows.map fun row => settleOne row answer := by
  cases hanswer : answer.hasAttachment with
  | none =>
    have hkeep : ∀ row : FetchRow δ, settleOne row answer = row := by
      intro row
      rw [settleOne, hanswer]
    simp only [settleRow, hanswer, hkeep, List.map_id']
  | some found =>
    induction rows with
    | nil => simp [settleRow, hanswer]
    | cons row rest ih =>
      rw [List.map_cons, List.nodup_cons] at h
      rw [List.map_cons, settleRow.eq_def]
      simp only [hanswer]
      by_cases hrow : (decide (row.uid = answer.uid) && needsStructure row) = true
      · have hself : settleOne row answer = { row with hasAttachment := some found } := by
          rw [settleOne, hanswer]
          simp only [if_pos hrow]
        have huid : row.uid = answer.uid := by
          rw [Bool.and_eq_true, decide_eq_true_eq] at hrow
          exact hrow.1
        have hrest : (rest.map fun row => settleOne row answer) = rest := by
          have hid : ∀ row' ∈ rest, settleOne row' answer = row' := by
            intro row' hrow'
            apply settleOne_other
            intro he
            exact h.1 (List.mem_map.mpr ⟨row', hrow', he.trans huid.symm⟩)
          calc rest.map (fun row => settleOne row answer) = rest.map id := List.map_congr_left hid
            _ = rest := List.map_id rest
        simp only [if_pos hrow, hself, hrest]
      · have hself : settleOne row answer = row := by
          rw [settleOne, hanswer]
          simp only [if_neg hrow]
        simp only [if_neg hrow, hself, ih h.2]

theorem foldl_settleRow (rows answers : List (FetchRow δ)) (h : (rows.map FetchRow.uid).Nodup) :
    answers.foldl settleRow rows = rows.map fun row => answers.foldl settleOne row := by
  induction answers generalizing rows with
  | nil => simp
  | cons answer answers ih =>
    have hmap : (rows.map fun row => settleOne row answer).map FetchRow.uid = rows.map FetchRow.uid := by
      rw [List.map_map]
      exact List.map_congr_left fun row _ => uid_settleOne row answer
    rw [List.foldl_cons, settleRow_eq_map answer h, ih _ (hmap ▸ h), List.map_map]
    rfl

theorem foldl_settleOne_closed (answers : List (FetchRow δ))
    (h : needsStructure row = false) : answers.foldl settleOne row = row := by
  induction answers with
  | nil => rfl
  | cons answer answers ih =>
    have hkeep : settleOne row answer = row := by
      unfold settleOne
      cases answer.hasAttachment <;> simp [h]
    rw [List.foldl_cons, hkeep, ih]

theorem foldl_settleOne {answers : List (FetchRow δ)} {found : Option Bool} (hopen : needsStructure row = true)
    (hsame : ∀ a ∈ answers, a.uid = row.uid → a.hasAttachment = found)
    (hthere : ∃ a ∈ answers, a.uid = row.uid) :
    answers.foldl settleOne row = { row with hasAttachment := found } := by
  have hnone : row.hasAttachment = none := by
    unfold needsStructure at hopen
    rw [Bool.and_eq_true, Option.isNone_iff_eq_none] at hopen
    exact hopen.1
  cases found with
  | none =>
    have hkeep : ∀ a ∈ answers, settleOne row a = row := by
      intro a ha
      by_cases huid : a.uid = row.uid
      · rw [settleOne, hsame a ha huid]
      · exact settleOne_other (Ne.symm huid)
    have hfold : ∀ rest : List (FetchRow δ), (∀ a ∈ rest, settleOne row a = row) → rest.foldl settleOne row = row := by
      intro rest hrest
      induction rest with
      | nil => rfl
      | cons a rest ih =>
        rw [List.foldl_cons, hrest a List.mem_cons_self, ih fun a' ha' => hrest a' (List.mem_cons_of_mem a ha')]
    rw [hfold answers hkeep, ← hnone]
  | some found =>
    induction answers with
    | nil => simp at hthere
    | cons a answers ih =>
      rw [List.foldl_cons]
      by_cases huid : a.uid = row.uid
      · have hset : settleOne row a = { row with hasAttachment := some found } := by
          rw [settleOne, hsame a List.mem_cons_self huid]
          simp [huid, hopen]
        rw [hset, foldl_settleOne_closed]
        simp [needsStructure]
      · rw [settleOne_other (Ne.symm huid)]
        obtain ⟨a', ha', he⟩ := hthere
        rcases List.mem_cons.mp ha' with rfl | ha'
        · exact absurd he huid
        · exact ih ⟨a', ha', he⟩ fun a' ha' => hsame a' (List.mem_cons_of_mem a ha')

section Settle

variable {server : Server δ} (session : Negotiated) {ms : List (ServerMessage δ)}

theorem gives_settleAttachments (hms : ∀ m ∈ ms, m ∈ server.messages) (hnodup : (ms.map ServerMessage.uid).Nodup) :
    server.gives (settleAttachments session (ms.map ServerMessage.metadata)) = ms.map ServerMessage.settled := by
  unfold settleAttachments
  have huids : (ms.map ServerMessage.metadata).map FetchRow.uid = ms.map ServerMessage.uid := by
    rw [List.map_map]
    rfl
  rw [Server.gives_bind, Server.gives_pure, foldl_settleRow _ _ (huids ▸ hnodup), List.map_map]
  apply List.map_congr_left
  intro m hm
  show List.foldl settleOne m.metadata _ = m.settled
  by_cases hplain : m.plain = true
  · rw [foldl_settleOne_closed _ (by rw [needsStructure_metadata, hplain]; rfl)]
    simp [ServerMessage.settled, ServerMessage.metadata, hplain]
  · have hopen : needsStructure m.metadata = true := by
      rw [needsStructure_metadata]
      simpa using hplain
    have hmem : m.uid ∈ ((ms.map ServerMessage.metadata).filter needsStructure).map FetchRow.uid :=
      List.mem_map.mpr ⟨m.metadata, List.mem_filter.mpr ⟨List.mem_map.mpr ⟨m, hm, rfl⟩, hopen⟩, rfl⟩
    rw [@foldl_settleOne _ _ _ m.attachment hopen]
    · simp [ServerMessage.settled, hplain]
    · intro a ha huid
      obtain ⟨m', hm', -, rfl⟩ := Server.mem_fetchStructures.mp ha
      rw [Server.uid_injective hm' (hms m hm) huid]
      rfl
    · exact ⟨m.bodyStructure, Server.mem_fetchStructures.mpr ⟨m, hms m hm, hmem, rfl⟩, rfl⟩

theorem sends_settleAttachments (rows : List (FetchRow δ)) : server.sends (settleAttachments session rows) = [] := by
  unfold settleAttachments
  rw [Server.sends_bind, Server.sends_fetchStructures, Server.sends_pure, List.append_nil]

variable (set : UidSet)

theorem gives_uidFetchMetadata :
    server.gives (uidFetchMetadata session set) = (server.named set).map ServerMessage.settled := by
  unfold uidFetchMetadata
  rw [Server.gives_bind, Server.gives_fetch]
  exact gives_settleAttachments session (fun m hm => (Server.mem_named.mp hm).1) (Server.named_nodup set)

theorem sends_uidFetchMetadata : server.sends (uidFetchMetadata session set) = [] := by
  unfold uidFetchMetadata
  rw [Server.sends_bind, Server.sends_fetch, sends_settleAttachments]
  rfl

end Settle

end Imap
end SyncEngine
