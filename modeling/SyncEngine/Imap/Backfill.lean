import SyncEngine.Imap.Answers

/-!
# What a backfill sends

Against a server that does not change.  Each group sends its messages as their headers arrive and corrects some, so
however they fall into chunks, the last copy of a message has its attachment flag settled, and no chunk has two.
-/

namespace SyncEngine
namespace Imap

open Mail

variable {δ : Type}

/-! ## Corrections -/

section Corrections

variable {server : Server δ} {ms : List (ServerMessage δ)}

/-- The rows settled by answers of the server: those that were settled already, and the open ones whose
structure was there. -/
theorem mem_foldl_takeSettled (hms : ∀ m ∈ ms, m ∈ server.messages) {answers : List (FetchRow δ)}
    (hanswers : ∀ a ∈ answers, ∃ m ∈ server.messages, a = m.bodyStructure)
    {opened done : List (FetchRow δ)}
    (hopened : ∀ row ∈ opened, ∃ m ∈ ms, m.plain = false ∧ row = m.metadata)
    {row : FetchRow δ} :
    row ∈ (answers.foldl takeSettled (opened, done)).2 ↔
      row ∈ done ∨ ∃ m ∈ ms, m.metadata ∈ opened ∧ m.bodyStructure ∈ answers ∧ m.attachment.isSome ∧ row = m.settled := by
  induction answers generalizing opened done with
  | nil => simp
  | cons a answers ih =>
    have hrest : ∀ a ∈ answers, ∃ m ∈ server.messages, a = m.bodyStructure :=
      fun a ha => hanswers a (List.mem_cons_of_mem _ ha)
    obtain ⟨m₀, hm₀, rfl⟩ := hanswers a List.mem_cons_self
    rw [List.foldl_cons]
    by_cases hsome : m₀.attachment.isSome = true ∧ ∃ row ∈ opened, row.uid = m₀.uid
    · obtain ⟨hfound, row₀, hrow₀, huid₀⟩ := hsome
      obtain ⟨found, hfound⟩ := Option.isSome_iff_exists.mp hfound
      -- the open row of this UID is the message's own
      have hown : ∀ row ∈ opened, row.uid = m₀.uid → m₀ ∈ ms ∧ row = m₀.metadata ∧ m₀.plain = false := by
        intro row hrow huid
        obtain ⟨m, hm, hplain, rfl⟩ := hopened row hrow
        have : m = m₀ := Server.uid_injective (hms m hm) hm₀ huid
        subst this
        exact ⟨hm, rfl, hplain⟩
      obtain ⟨hmem, rfl, hplain⟩ := hown row₀ hrow₀ huid₀
      have hfind : opened.find? (fun row => row.uid = m₀.bodyStructure.uid) = some m₀.metadata := by
        cases hf : opened.find? (fun row => row.uid = m₀.bodyStructure.uid) with
        | none =>
          exact absurd (decide_eq_true huid₀) (List.find?_eq_none.mp hf _ hrow₀)
        | some row =>
          have hrow := List.mem_of_find?_eq_some hf
          have huid : row.uid = m₀.uid := by
            have hdecided := List.find?_some hf
            exact of_decide_eq_true hdecided
          rw [(hown row hrow huid).2.1]
      have hstep : takeSettled (opened, done) m₀.bodyStructure =
          (opened.eraseP fun row => row.uid = m₀.bodyStructure.uid, done ++ [m₀.settled]) := by
        have hanswer : m₀.bodyStructure.hasAttachment = some found := hfound
        unfold takeSettled
        rw [hfind, hanswer]
        simp [ServerMessage.settled, hplain, hfound]
      have hsub : ∀ row ∈ opened.eraseP (fun row => row.uid = m₀.bodyStructure.uid),
          ∃ m ∈ ms, m.plain = false ∧ row = m.metadata :=
        fun row hrow => hopened row (List.mem_of_mem_eraseP hrow)
      rw [hstep, ih hrest hsub, List.mem_append, List.mem_singleton]
      constructor
      · rintro ((h | rfl) | ⟨m, hm, hop, hans, hatt, rfl⟩)
        · exact .inl h
        · exact .inr ⟨m₀, hmem, hrow₀, List.mem_cons_self, by rw [hfound]; rfl, rfl⟩
        · exact .inr ⟨m, hm, List.mem_of_mem_eraseP hop, List.mem_cons_of_mem _ hans, hatt, rfl⟩
      · rintro (h | ⟨m, hm, hop, hans, hatt, rfl⟩)
        · exact .inl (.inl h)
        · by_cases he : m.uid = m₀.uid
          · rw [Server.uid_injective (hms m hm) hm₀ he]
            exact .inl (.inr rfl)
          · refine .inr ⟨m, hm, ?_, ?_, hatt, rfl⟩
            · rw [List.mem_eraseP_of_neg]
              · exact hop
              · intro h
                exact he (of_decide_eq_true h)
            · rcases List.mem_cons.mp hans with h | h
              · exact absurd (congrArg FetchRow.uid h) he
              · exact h
    · have hstep : takeSettled (opened, done) m₀.bodyStructure = (opened, done) := by
        unfold takeSettled
        cases hatt : m₀.bodyStructure.hasAttachment with
        | none => rfl
        | some found =>
          have hatt : m₀.attachment = some found := hatt
          have hnone : opened.find? (fun row => row.uid = m₀.bodyStructure.uid) = none := by
            rw [List.find?_eq_none]
            intro row hrow huid
            exact hsome ⟨by rw [hatt]; rfl, row, hrow, of_decide_eq_true huid⟩
          simp only [hnone]
      rw [hstep, ih hrest hopened]
      constructor
      · rintro (h | ⟨m, hm, hop, hans, hatt, rfl⟩)
        · exact .inl h
        · exact .inr ⟨m, hm, hop, List.mem_cons_of_mem _ hans, hatt, rfl⟩
      · rintro (h | ⟨m, hm, hop, hans, hatt, rfl⟩)
        · exact .inl h
        · rcases List.mem_cons.mp hans with he | hans
          · have huid : m.uid = m₀.uid := congrArg FetchRow.uid he
            have hm' : m = m₀ := Server.uid_injective (hms m hm) hm₀ huid
            subst hm'
            exact absurd ⟨hatt, m.metadata, hop, rfl⟩ hsome
          · exact .inr ⟨m, hm, hop, hans, hatt, rfl⟩

theorem mem_corrections (session : Negotiated) (hms : ∀ m ∈ ms, m ∈ server.messages) {row : FetchRow δ} :
    row ∈ server.gives (corrections session ((ms.map ServerMessage.metadata).filter needsStructure)) ↔
      ∃ m ∈ ms, m.plain = false ∧ m.attachment = some true ∧ row = m.settled := by
  have hopened : ∀ row ∈ (ms.map ServerMessage.metadata).filter needsStructure,
      ∃ m ∈ ms, m.plain = false ∧ row = m.metadata := by
    intro row hrow
    obtain ⟨hrow, hneeds⟩ := List.mem_filter.mp hrow
    obtain ⟨m, hm, rfl⟩ := List.mem_map.mp hrow
    rw [needsStructure_metadata] at hneeds
    exact ⟨m, hm, by simpa using hneeds, rfl⟩
  have hmem : ∀ m ∈ ms, m.plain = false → m.metadata ∈ (ms.map ServerMessage.metadata).filter needsStructure := by
    intro m hm hplain
    refine List.mem_filter.mpr ⟨List.mem_map.mpr ⟨m, hm, rfl⟩, ?_⟩
    rw [needsStructure_metadata, hplain]
    rfl
  unfold corrections
  by_cases hempty : ((ms.map ServerMessage.metadata).filter needsStructure).isEmpty = true
  · rw [if_pos hempty, Server.gives_pure]
    rw [List.isEmpty_iff] at hempty
    refine iff_of_false List.not_mem_nil ?_
    intro ⟨m, hm, hplain, _⟩
    have := hmem m hm hplain
    rw [hempty] at this
    exact absurd this List.not_mem_nil
  · rw [if_neg hempty]
    unfold settleAcross
    rw [Server.gives_bind, Server.gives_bind, Server.gives_pure, Server.gives_pure,
      List.mem_filter, mem_foldl_takeSettled hms _ hopened]
    · have huids : ∀ m ∈ ms, m.plain = false → m.bodyStructure ∈ server.gives (fetchStructures session
            (((ms.map ServerMessage.metadata).filter needsStructure).map FetchRow.uid)) := by
        intro m hm hplain
        exact Server.mem_fetchStructures.mpr ⟨m, hms m hm, List.mem_map.mpr ⟨m.metadata, hmem m hm hplain, rfl⟩, rfl⟩
      constructor
      · rintro ⟨h | ⟨m, hm, hop, -, -, rfl⟩, htrue⟩
        · exact absurd h List.not_mem_nil
        · have hplain : m.plain = false := by
            have := (List.mem_filter.mp hop).2
            rw [needsStructure_metadata] at this
            simpa using this
          refine ⟨m, hm, hplain, ?_, rfl⟩
          simpa [ServerMessage.settled, hplain] using htrue
      · rintro ⟨m, hm, hplain, hatt, rfl⟩
        refine ⟨.inr ⟨m, hm, hmem m hm hplain, huids m hm hplain, by rw [hatt]; rfl, rfl⟩, ?_⟩
        simp [ServerMessage.settled, hplain, hatt]
    · intro a ha
      obtain ⟨m, hm, -, rfl⟩ := Server.mem_fetchStructures.mp ha
      exact ⟨m, hm, rfl⟩

theorem sends_corrections (session : Negotiated) (opened : List (FetchRow δ)) :
    server.sends (corrections session opened) = [] := by
  unfold corrections
  by_cases h : opened.isEmpty = true
  · rw [if_pos h, Server.sends_pure]
  · rw [if_neg h]
    unfold settleAcross
    rw [Server.sends_bind, Server.sends_bind, Server.sends_fetchStructures, Server.sends_pure, Server.sends_pure]
    rfl

end Corrections

/-! ## Scanning messages -/

section Scan

variable {m : Message (Content δ)} {buf : List (Message (Content δ))}

theorem mem_replaceHeld {x : Message (Content δ)} (h : x ∈ replaceHeld m buf) : x = m ∨ x ∈ buf := by
  induction buf with
  | nil => exact .inl (List.mem_singleton.mp h)
  | cons held rest ih =>
    rw [replaceHeld] at h
    split at h
    · rcases List.mem_cons.mp h with h | h
      · exact .inl h
      · exact .inr (List.mem_cons_of_mem held h)
    · rcases List.mem_cons.mp h with h | h
      · exact .inr (by simp [h])
      · exact (ih h).imp_right (List.mem_cons_of_mem held)

theorem nodup_replaceHeld (h : (buf.map Message.key).Nodup) : ((replaceHeld m buf).map Message.key).Nodup := by
  induction buf with
  | nil => simp [replaceHeld]
  | cons held rest ih =>
    rw [List.map_cons, List.nodup_cons] at h
    rw [replaceHeld]
    split
    · rename_i hkey
      rw [List.map_cons, List.nodup_cons, ← hkey]
      exact h
    · rename_i hkey
      rw [List.map_cons, List.nodup_cons]
      refine ⟨?_, ih h.2⟩
      intro hmem
      obtain ⟨x, hx, he⟩ := List.mem_map.mp hmem
      rcases mem_replaceHeld hx with rfl | hx
      · exact hkey he.symm
      · exact h.1 (List.mem_map.mpr ⟨x, hx, he⟩)

theorem latest_replaceHeld (h : (buf.map Message.key).Nodup) (k : ProviderKey) :
    latest Message.key (replaceHeld m buf) k =
      if m.key = k then some m else latest Message.key buf k := by
  induction buf with
  | nil =>
    rw [replaceHeld, latest_cons]
    rfl
  | cons held rest ih =>
    rw [List.map_cons, List.nodup_cons] at h
    rw [replaceHeld]
    split
    · rename_i hkey
      rw [latest_cons, latest_cons, hkey]
      by_cases hk : m.key = k
      · have hnone : latest Message.key rest k = none := by
          rw [latest_eq_none]
          intro x hx he
          exact h.1 (List.mem_map.mpr ⟨x, hx, he.trans (hk.symm.trans hkey.symm)⟩)
        rw [if_pos hk, if_pos hk, hnone, Option.none_or]
      · rw [if_neg hk, if_neg hk, if_neg hk]
    · rename_i hkey
      rw [latest_cons, ih h.2, latest_cons]
      by_cases hk : m.key = k
      · rw [if_pos hk, if_pos hk, Option.some_or]
      · rw [if_neg hk, if_neg hk]

theorem replaceHeld_of_new (h : m.key ∉ buf.map Message.key) : replaceHeld m buf = buf ++ [m] := by
  induction buf with
  | nil => rfl
  | cons held rest ih =>
    rw [List.map_cons, List.mem_cons, not_or] at h
    rw [replaceHeld, if_neg (Ne.symm h.1), ih h.2, List.cons_append]

/-- The batches that go out while messages are placed in turn, and what waits at the end. -/
def scanned (chunkSize : Nat) :
    List (Message (Content δ)) → List (Message (Content δ)) →
      List (List (Message (Content δ))) × List (Message (Content δ))
  | [], buf => ([], buf)
  | m :: ms, buf =>
    let buf := replaceHeld m buf
    if chunkSize ≠ 0 ∧ chunkSize ≤ buf.length then
      (buf :: (scanned chunkSize ms []).1, (scanned chunkSize ms []).2)
    else scanned chunkSize ms buf

theorem scanned_cons (chunkSize : Nat) (m : Message (Content δ)) (ms buf : List (Message (Content δ))) :
    scanned chunkSize (m :: ms) buf =
      if chunkSize ≠ 0 ∧ chunkSize ≤ (replaceHeld m buf).length then
        (replaceHeld m buf :: (scanned chunkSize ms []).1, (scanned chunkSize ms []).2)
      else scanned chunkSize ms (replaceHeld m buf) := rfl

variable (chunkSize : Nat) (ms : List (Message (Content δ)))

theorem scanned_append (ms' : List (Message (Content δ))) (buf : List (Message (Content δ))) :
    scanned chunkSize (ms ++ ms') buf =
      ((scanned chunkSize ms buf).1 ++ (scanned chunkSize ms' (scanned chunkSize ms buf).2).1,
        (scanned chunkSize ms' (scanned chunkSize ms buf).2).2) := by
  induction ms generalizing buf with
  | nil => rfl
  | cons m ms ih =>
    rw [List.cons_append, scanned_cons, scanned_cons]
    by_cases h : chunkSize ≠ 0 ∧ chunkSize ≤ (replaceHeld m buf).length
    · rw [if_pos h, if_pos h, ih, List.cons_append]
    · rw [if_neg h, if_neg h, ih]

theorem latest_scanned (h : (buf.map Message.key).Nodup) (k : ProviderKey) :
    latest Message.key ((scanned chunkSize ms buf).1.flatten ++ (scanned chunkSize ms buf).2) k =
      (latest Message.key ms k).or (latest Message.key buf k) := by
  induction ms generalizing buf with
  | nil => rfl
  | cons m ms ih =>
    have hplaced : (latest Message.key ms k).or (latest Message.key (replaceHeld m buf) k) =
        (latest Message.key (m :: ms) k).or (latest Message.key buf k) := by
      rw [latest_replaceHeld h, latest_cons, Option.or_assoc]
      by_cases hk : m.key = k
      · rw [if_pos hk, if_pos hk, Option.some_or]
      · rw [if_neg hk, if_neg hk, Option.none_or]
    rw [scanned_cons]
    by_cases hfull : chunkSize ≠ 0 ∧ chunkSize ≤ (replaceHeld m buf).length
    · have hrest := @ih [] (by simp)
      rw [if_pos hfull, List.flatten_cons, List.append_assoc, latest_append, hrest, ← hplaced]
      show ((latest Message.key ms k).or none).or _ = _
      rw [Option.or_none]
    · rw [if_neg hfull, ih (nodup_replaceHeld h), hplaced]

theorem mem_scanned {x : Message (Content δ)}
    (h : x ∈ (scanned chunkSize ms buf).1.flatten ++ (scanned chunkSize ms buf).2) :
    x ∈ ms ∨ x ∈ buf := by
  induction ms generalizing buf with
  | nil => exact .inr h
  | cons m ms ih =>
    have hplaced : x ∈ replaceHeld m buf → x ∈ m :: ms ∨ x ∈ buf := by
      intro hx
      exact (mem_replaceHeld hx).imp_left fun he => by simp [he]
    rw [scanned_cons] at h
    by_cases hfull : chunkSize ≠ 0 ∧ chunkSize ≤ (replaceHeld m buf).length
    · rw [if_pos hfull, List.flatten_cons, List.append_assoc] at h
      rcases List.mem_append.mp h with h | h
      · exact hplaced h
      · rcases ih h with h | h
        · exact .inl (List.mem_cons_of_mem m h)
        · exact absurd h List.not_mem_nil
    · rw [if_neg hfull] at h
      rcases ih h with h | h
      · exact .inl (List.mem_cons_of_mem m h)
      · exact hplaced h

theorem nodup_scanned (h : (buf.map Message.key).Nodup) :
    (∀ batch ∈ (scanned chunkSize ms buf).1, (batch.map Message.key).Nodup) ∧
      ((scanned chunkSize ms buf).2.map Message.key).Nodup := by
  induction ms generalizing buf with
  | nil => exact ⟨fun batch hb => absurd hb List.not_mem_nil, h⟩
  | cons m ms ih =>
    rw [scanned_cons]
    by_cases hfull : chunkSize ≠ 0 ∧ chunkSize ≤ (replaceHeld m buf).length
    · have hrest := @ih [] (by simp)
      rw [if_pos hfull]
      refine ⟨?_, hrest.2⟩
      intro batch hb
      rcases List.mem_cons.mp hb with rfl | hb
      · exact nodup_replaceHeld h
      · exact hrest.1 batch hb
    · rw [if_neg hfull]
      exact ih (nodup_replaceHeld h)

theorem scanned_zero : (scanned 0 ms buf).1 = [] := by
  induction ms generalizing buf with
  | nil => rfl
  | cons m ms ih =>
    rw [scanned_cons]
    exact ih

theorem scanned_one : (scanned 1 ms []).2 = [] := by
  induction ms with
  | nil => rfl
  | cons m ms ih =>
    rw [scanned_cons]
    simpa [replaceHeld] using ih

variable (server : Server δ) (total : Option Nat)

theorem sends_scanMessages (buf : List (Message (Content δ))) :
    server.sends (scanMessages total chunkSize (fun buf m => replaceHeld m buf) ms buf) =
      (scanned chunkSize ms buf).1.map fun batch => .additiveHeld batch [] total := by
  induction ms generalizing buf with
  | nil => rfl
  | cons m ms ih =>
    rw [scanMessages, Server.sends_bind, ih, scanned_cons, sendFull]
    by_cases hfull : chunkSize ≠ 0 ∧ chunkSize ≤ (replaceHeld m buf).length
    · rw [if_pos hfull, if_pos hfull]
      rfl
    · rw [if_neg hfull, if_neg hfull]
      rfl

theorem gives_scanMessages (buf : List (Message (Content δ))) :
    server.gives (scanMessages total chunkSize (fun buf m => replaceHeld m buf) ms buf) =
      (scanned chunkSize ms buf).2 := by
  induction ms generalizing buf with
  | nil => rfl
  | cons m ms ih =>
    rw [scanMessages, Server.gives_bind, ih, scanned_cons, sendFull]
    by_cases hfull : chunkSize ≠ 0 ∧ chunkSize ≤ (replaceHeld m buf).length
    · rw [if_pos hfull, if_pos hfull]
      rfl
    · rw [if_neg hfull, if_neg hfull]
      rfl

theorem scanMessages_of_new (buf : List (Message (Content δ))) (h : ((buf ++ ms).map Message.key).Nodup) :
    scanMessages total chunkSize (fun buf m => buf ++ [m]) ms buf =
      scanMessages total chunkSize (fun buf m => replaceHeld m buf) ms buf := by
  induction ms generalizing buf with
  | nil => rfl
  | cons m ms ih =>
    have hnew : m.key ∉ buf.map Message.key := by
      intro hmem
      rw [List.map_append, List.map_cons] at h
      exact (List.disjoint_of_nodup_append h) hmem List.mem_cons_self
    have hplaced : ((buf ++ [m] ++ ms).map Message.key).Nodup := by
      rw [List.append_assoc]
      exact h
    have htail : (([] ++ ms).map Message.key).Nodup := by
      rw [List.map_append, List.map_append] at hplaced
      exact (List.nodup_append.mp hplaced).2.1
    rw [scanMessages, scanMessages, replaceHeld_of_new hnew]
    unfold sendFull
    by_cases hfull : chunkSize ≠ 0 ∧ chunkSize ≤ (buf ++ [m]).length
    · rw [if_pos hfull]
      simp only [bind_assoc, pure_bind, ih [] htail]
    · rw [if_neg hfull, pure_bind, pure_bind, ih _ hplaced]

end Scan

/-! ## The copies of a message -/

namespace Server

variable (server : Server δ) (on : Binding)

/-- The message as a pass leaves it, with its attachment flag settled. -/
def stored (m : ServerMessage δ) : Message (Content δ) :=
  messageFromFetch m.settled on.mailbox server.uidValidity

def headed (m : ServerMessage δ) : Message (Content δ) :=
  messageFromFetch m.metadata on.mailbox server.uidValidity

variable {server on} {ms ms' : List (ServerMessage δ)}

theorem uid_of_key {m m' : ServerMessage δ} (h : (server.stored on m).key = (server.stored on m').key) : m.uid = m'.uid :=
  messageKey_injective on.mailbox server.uidValidity h

theorem latest_stored (hms : ∀ m ∈ ms, m ∈ server.messages) {m : ServerMessage δ} (hm : m ∈ ms) :
    latest Message.key (ms.map (server.stored on)) (server.stored on m).key = some (server.stored on m) := by
  apply latest_of_unique (List.mem_map.mpr ⟨m, hm, rfl⟩)
  intro x hx hkey
  obtain ⟨m', hm', rfl⟩ := List.mem_map.mp hx
  rw [uid_injective (hms m' hm') (hms m hm) (uid_of_key hkey)]

theorem latest_stored_eq_none {k : ProviderKey} : latest Message.key (ms.map (server.stored on)) k = none ↔
      ∀ m ∈ ms, (server.stored on m).key ≠ k := by
  rw [latest_eq_none]
  simp

end Server

/-- Messages of the server sent in additive chunks, the last of which is still to go out.  Every chunk
has distinct keys, and the last copy of each message is the settled one. -/
structure Swept (server : Server δ) (on : Binding) (ms : List (ServerMessage δ))
    (init : List (EmailChunk (Content δ))) (buf : List (Message (Content δ))) : Prop where
  known : ∀ m ∈ ms, m ∈ server.messages
  additive : ∀ c ∈ init, c.mode = .additive ∧ c.patched = [] ∧ c.removed = []
  distinct : ∀ c ∈ init, (c.changed.map Message.key).Nodup
  distinctLast : (buf.map Message.key).Nodup
  last : ∀ k, latest Message.key (init.flatMap EmailChunk.changed ++ buf) k =
    latest Message.key (ms.map (server.stored on)) k
  copies : ∀ x ∈ init.flatMap EmailChunk.changed ++ buf, ∃ m ∈ ms,
    x.key = (server.stored on m).key ∧ x.date = (server.stored on m).date

namespace Swept

variable {server : Server δ} {on : Binding} {ms ms' : List (ServerMessage δ)}
  {init init' : List (EmailChunk (Content δ))} {buf buf' : List (Message (Content δ))}

theorem append (h : Swept server on ms init buf) (h' : Swept server on ms' init' buf')
    (total : Option Nat) (cursor : SyncState) :
    Swept server on (ms ++ ms') (init ++ .additive buf [] total cursor :: init') buf' where
  known := by
    intro m hm
    rcases List.mem_append.mp hm with hm | hm
    · exact h.known m hm
    · exact h'.known m hm
  additive := by
    intro c hc
    rcases List.mem_append.mp hc with hc | hc
    · exact h.additive c hc
    · rcases List.mem_cons.mp hc with rfl | hc
      · exact ⟨rfl, rfl, rfl⟩
      · exact h'.additive c hc
  distinct := by
    intro c hc
    rcases List.mem_append.mp hc with hc | hc
    · exact h.distinct c hc
    · rcases List.mem_cons.mp hc with rfl | hc
      · exact h.distinctLast
      · exact h'.distinct c hc
  distinctLast := h'.distinctLast
  last := by
    intro k
    rw [List.map_append, latest_append (ms.map _), ← h.last k, ← h'.last k, ← latest_append,
      List.flatMap_append, List.flatMap_cons]
    show latest _ (_ ++ (buf ++ _) ++ _) k = _
    simp only [List.append_assoc]
  copies := by
    intro x hx
    have hsplit : x ∈ init.flatMap EmailChunk.changed ++ buf ∨ x ∈ init'.flatMap EmailChunk.changed ++ buf' := by
      rw [List.flatMap_append, List.flatMap_cons] at hx
      have hx : x ∈ init.flatMap EmailChunk.changed ++ (buf ++ init'.flatMap EmailChunk.changed) ++ buf' := hx
      simp only [List.mem_append] at hx ⊢
      tauto
    rcases hsplit with hx | hx
    · obtain ⟨m, hm, he⟩ := h.copies x hx
      exact ⟨m, List.mem_append_left ms' hm, he⟩
    · obtain ⟨m, hm, he⟩ := h'.copies x hx
      exact ⟨m, List.mem_append_right ms hm, he⟩

end Swept

section Group

variable (server : Server δ) (on : Binding) (total : Option Nat) (chunkSize : Nat) (set : UidSet)

/-- Everything a group places: its messages as they arrive, and then the corrections. -/
def placed : List (Message (Content δ)) :=
  (server.named set).map (server.headed on) ++
    (server.gives (corrections on.session
      (((server.named set).map ServerMessage.metadata).filter needsStructure))).reverse.map
        fun row => messageFromFetch row on.mailbox server.uidValidity

theorem nodup_headed : (((server.named set).map (server.headed on)).map Message.key).Nodup := by
  have hmap : ((server.named set).map (server.headed on)).map Message.key =
      ((server.named set).map ServerMessage.uid).map (messageKey on.mailbox server.uidValidity) := by
    rw [List.map_map, List.map_map]
    rfl
  rw [hmap]
  exact (Server.named_nodup set).map (messageKey_injective on.mailbox server.uidValidity)

theorem scanGroup_eq : server.sends (scanGroup on server.uidValidity total chunkSize set) =
        (scanned chunkSize (placed server on set) []).1.map (fun batch => .additiveHeld batch [] total) ∧
      server.gives (scanGroup on server.uidValidity total chunkSize set) =
        ((scanned chunkSize (placed server on set) []).2, (server.named set).map fun m => (server.stored on m).key) := by
  have hmessages : ((server.named set).map ServerMessage.metadata).map
      (fun row => messageFromFetch row on.mailbox server.uidValidity) = (server.named set).map (server.headed on) := by
    rw [List.map_map]
    rfl
  have hnew : (([] ++ (server.named set).map (server.headed on)).map Message.key).Nodup := nodup_headed server on set
  unfold scanGroup placed
  simp only [Server.sends_bind, Server.gives_bind, Server.sends_fetch, Server.gives_fetch,
    Server.sends_pure, Server.gives_pure, hmessages,
    scanMessages_of_new chunkSize _ total [] hnew, sends_scanMessages, gives_scanMessages,
    sends_corrections, scanned_append, List.map_append, List.nil_append, List.append_nil,
    List.map_map]
  exact ⟨trivial, rfl⟩

theorem latest_placed (k : ProviderKey) : latest Message.key (placed server on set) k =
      latest Message.key ((server.named set).map (server.stored on)) k := by
  have hms : ∀ m ∈ server.named set, m ∈ server.messages := fun m hm => (Server.mem_named.mp hm).1
  unfold placed
  set corrected := server.gives (corrections on.session
    (((server.named set).map ServerMessage.metadata).filter needsStructure)) with hcorrected
  have hmem : ∀ x, x ∈ (corrected.reverse.map fun row => messageFromFetch row on.mailbox server.uidValidity) ↔
        ∃ m ∈ server.named set, m.plain = false ∧ m.attachment = some true ∧ x = server.stored on m := by
    intro x
    simp only [List.mem_map, List.mem_reverse, hcorrected, mem_corrections on.session hms]
    constructor
    · rintro ⟨row, ⟨m, hm, hplain, hatt, rfl⟩, rfl⟩
      exact ⟨m, hm, hplain, hatt, rfl⟩
    · rintro ⟨m, hm, hplain, hatt, rfl⟩
      exact ⟨m.settled, ⟨m, hm, hplain, hatt, rfl⟩, rfl⟩
  rw [latest_append]
  cases hk : latest Message.key ((server.named set).map (server.stored on)) k with
  | none =>
    rw [Server.latest_stored_eq_none] at hk
    rw [latest_eq_none.mpr, latest_eq_none.mpr]
    · rfl
    · intro x hx
      obtain ⟨m, hm, rfl⟩ := List.mem_map.mp hx
      exact hk m hm
    · intro x hx
      obtain ⟨m, hm, -, -, rfl⟩ := (hmem x).mp hx
      exact hk m hm
  | some x =>
    obtain ⟨hx, rfl⟩ := mem_of_latest hk
    obtain ⟨m, hm, rfl⟩ := List.mem_map.mp hx
    by_cases hopen : m.plain = false ∧ m.attachment = some true
    · rw [latest_of_unique ((hmem _).mpr ⟨m, hm, hopen.1, hopen.2, rfl⟩), Option.some_or]
      intro x hx hkey
      obtain ⟨m', hm', -, -, rfl⟩ := (hmem x).mp hx
      rw [Server.uid_injective (hms m' hm') (hms m hm) (Server.uid_of_key hkey)]
    · -- no structure shows an attachment, so the first copy is already right
      have hsame : server.headed on m = server.stored on m := by
        unfold Server.headed Server.stored messageFromFetch
        congr 2
        show Option.getD (if m.plain then some false else none) false =
          Option.getD (if m.plain then some false else m.attachment) false
        cases hplain : m.plain with
        | true => rfl
        | false =>
          cases hatt : m.attachment with
          | none => rfl
          | some found =>
            cases found with
            | false => rfl
            | true => exact absurd ⟨hplain, hatt⟩ hopen
      rw [latest_eq_none.mpr, Option.none_or, ← hsame,
        latest_of_mem (nodup_headed server on set) (List.mem_map.mpr ⟨m, hm, rfl⟩)]
      intro x hx hkey
      obtain ⟨m', hm', hplain, hatt, rfl⟩ := (hmem x).mp hx
      have he := Server.uid_injective (hms m' hm') (hms m hm) (Server.uid_of_key hkey)
      subst he
      exact hopen ⟨hplain, hatt⟩

theorem copies_placed {x : Message (Content δ)} (h : x ∈ placed server on set) :
    ∃ m ∈ server.named set, x.key = (server.stored on m).key ∧ x.date = (server.stored on m).date := by
  have hms : ∀ m ∈ server.named set, m ∈ server.messages := fun m hm => (Server.mem_named.mp hm).1
  unfold placed at h
  rcases List.mem_append.mp h with h | h
  · obtain ⟨m, hm, rfl⟩ := List.mem_map.mp h
    exact ⟨m, hm, rfl, rfl⟩
  · obtain ⟨row, hrow, rfl⟩ := List.mem_map.mp h
    obtain ⟨m, hm, -, -, rfl⟩ := (mem_corrections on.session hms).mp (List.mem_reverse.mp hrow)
    exact ⟨m, hm, rfl, rfl⟩

theorem swept_group : Swept server on (server.named set)
      (server.sends (scanGroup on server.uidValidity total chunkSize set))
      (server.gives (scanGroup on server.uidValidity total chunkSize set)).1 := by
  obtain ⟨hsends, hgives⟩ := scanGroup_eq server on total chunkSize set
  have hflat : (server.sends (scanGroup on server.uidValidity total chunkSize set)).flatMap
      EmailChunk.changed = (scanned chunkSize (placed server on set) []).1.flatten := by
    rw [hsends, List.flatMap_map, List.flatMap_def]
    exact congrArg List.flatten (List.map_id _)
  have hnodup := @nodup_scanned δ [] chunkSize (placed server on set) (by simp)
  refine ⟨fun m hm => (Server.mem_named.mp hm).1, ?_, ?_, ?_, ?_, ?_⟩
  · intro c hc
    rw [hsends] at hc
    obtain ⟨batch, -, rfl⟩ := List.mem_map.mp hc
    exact ⟨rfl, rfl, rfl⟩
  · intro c hc
    rw [hsends] at hc
    obtain ⟨batch, hbatch, rfl⟩ := List.mem_map.mp hc
    exact hnodup.1 batch hbatch
  · rw [hgives]
    exact hnodup.2
  · intro k
    rw [hflat, hgives, latest_scanned _ _ (by simp), latest_placed]
    exact Option.or_none
  · intro x hx
    rw [hflat, hgives] at hx
    rcases mem_scanned _ _ hx with hx | hx
    · exact copies_placed server on set hx
    · exact absurd hx List.not_mem_nil

end Group

/-! ## All groups -/

section Groups

variable (server : Server δ) (on : Binding) (frontier : MailboxCursor) (total : Option Nat)
  (chunkSize : Nat) (isFresh : Bool)

def groupMessages (groups : List (UidSet × Nat)) : List (ServerMessage δ) :=
  groups.flatMap fun group => server.named group.1

theorem backfillScan_eq {groups : List (UidSet × Nat)} (hgroups : groups ≠ []) (present : List ProviderKey) :
    ∃ init buf, server.sends (backfillScan on server.uidValidity frontier total chunkSize isFresh groups present) =
          init ++ [backfillEnd frontier isFresh total buf
            (present ++ (groupMessages server groups).map fun m => (server.stored on m).key)] ∧
      Swept server on (groupMessages server groups) init buf ∧
      ∀ group, groups.getLast? = some group → buf = (scanned chunkSize (placed server on group.1) []).2 := by
  induction groups generalizing present with
  | nil => exact absurd rfl hgroups
  | cons group rest ih =>
    obtain ⟨set, groupLow⟩ := group
    have hgives := (scanGroup_eq server on total chunkSize set).2
    have hgroup := swept_group server on total chunkSize set
    cases rest with
    | nil =>
      refine ⟨_, _, ?_, by simpa [groupMessages] using hgroup, ?_⟩
      · rw [backfillScan, Server.sends_bind]
        simp only [hgives, List.isEmpty_nil, if_true, Server.sends_commit, groupMessages,
          List.flatMap_cons, List.flatMap_nil, List.append_nil]
      · intro group hlast
        simp only [List.getLast?_singleton, Option.some.injEq] at hlast
        subst hlast
        rw [hgives]
    | cons next rest =>
      obtain ⟨init, buf, hsends, hswept, hbuf⟩ := ih (List.cons_ne_nil next rest)
        (present ++ (server.named set).map fun m => (server.stored on m).key)
      refine ⟨_, buf, ?_, hgroup.append hswept total
        { frontier with backfillLow := some groupLow, reconciled := false }.encode, ?_⟩
      · rw [backfillScan, Server.sends_bind]
        simp only [hgives, List.isEmpty_cons, Bool.false_eq_true, if_false, Server.sends_bind,
          Server.sends_commit, hsends]
        show _ ++ ([_] ++ (init ++ [_])) = _
        simp only [groupMessages, List.flatMap_cons, List.map_append, List.append_assoc,
          List.nil_append, List.cons_append]
      · intro group hlast
        exact hbuf group (by simpa using hlast)

end Groups

/-! ## What a backfill leaves -/

namespace Swept

variable {server : Server δ} {on : Binding} {ms : List (ServerMessage δ)}
  {init : List (EmailChunk (Content δ))} {buf : List (Message (Content δ))}

theorem told_within (h : Swept server on ms init buf) (chunks : List (EmailChunk (Content δ)))
    (hchunks : ∀ c ∈ chunks, c.mode = .additive ∧ c.patched = [] ∧ c.removed = [] ∧ (c.changed.map Message.key).Nodup)
    (hcopies : ∀ x ∈ chunks.flatMap EmailChunk.changed, ∃ m ∈ ms,
      x.key = (server.stored on m).key ∧ x.date = (server.stored on m).date)
    (window : SyncWindow) (s : Told (Content δ)) (k : ProviderKey) :
    (chunks.map (EmailChunk.within · window)).foldl (fun t c => t.addChunk c k) s =
      match latest Message.key (chunks.flatMap EmailChunk.changed) k with
      | some m => if window.admits m.date then Told.asSent [m] false else s
      | none => s := by
  have hchanged := flatMap_within (fun c hc => (hchunks c hc).1) window
  have hremoved : (chunks.map (EmailChunk.within · window)).flatMap EmailChunk.removed = [] := by
    rw [List.flatMap_map, List.flatMap_eq_nil_iff]
    intro c hc
    rw [EmailChunk.removed_within, (hchunks c hc).2.2.1]
  have hpatched : (chunks.map (EmailChunk.within · window)).flatMap EmailChunk.patched = [] := by
    rw [List.flatMap_map, List.flatMap_eq_nil_iff]
    intro c hc
    rw [EmailChunk.patched_within, (hchunks c hc).2.1]
  have hdates : ∀ x ∈ chunks.flatMap EmailChunk.changed, x.key = k →
      window.admits x.date = ((latest Message.key (chunks.flatMap EmailChunk.changed) k).any
        fun m => window.admits m.date) := by
    intro x hx hkey
    cases hlatest : latest Message.key (chunks.flatMap EmailChunk.changed) k with
    | none => exact absurd hkey (latest_eq_none.mp hlatest x hx)
    | some y =>
      obtain ⟨hy, hykey⟩ := mem_of_latest hlatest
      obtain ⟨m, hm, hmkey, hmdate⟩ := hcopies x hx
      obtain ⟨m', hm', hmkey', hmdate'⟩ := hcopies y hy
      have he : (server.stored on m).key = (server.stored on m').key := by rw [← hmkey, ← hmkey', hkey, hykey]
      have hsame := Server.uid_injective (h.known m hm) (h.known m' hm') (Server.uid_of_key he)
      rw [hmdate, hsame, ← hmdate']
      rfl
  rw [Told.foldl_apart, hchanged, hremoved, hpatched, latest_filter _ _ hdates]
  · cases hlatest : latest Message.key (chunks.flatMap EmailChunk.changed) k with
    | none => simp [changesTo]
    | some m =>
      by_cases hadmits : window.admits m.date = true
      · simp [hadmits]
      · simp [hadmits, changesTo]
  · intro c hmapped
    obtain ⟨c, hc, rfl⟩ := List.mem_map.mp hmapped
    exact (EmailChunk.alike_of_nodup (hchunks c hc).2.2.2).within window
  · rw [hremoved, hpatched]
    exact fun m _ => ⟨List.not_mem_nil, List.not_mem_nil⟩

theorem told_additive (h : Swept server on ms init buf) (window : SyncWindow) (total : Option Nat)
    (cursor : SyncState) (s : Told (Content δ)) (k : ProviderKey) :
    ((init ++ [EmailChunk.additive buf [] total cursor]).map (EmailChunk.within · window)).foldl
        (fun t c => t.addChunk c k) s =
      match latest Message.key (ms.map (server.stored on)) k with
      | some m => if window.admits m.date then Told.asSent [m] false else s
      | none => s := by
  have hchanged : (init ++ [EmailChunk.additive buf [] total cursor]).flatMap EmailChunk.changed =
      init.flatMap EmailChunk.changed ++ buf := by
    rw [List.flatMap_append]
    simp [EmailChunk.additive]
  rw [h.told_within, hchanged, h.last]
  · intro c hc
    rcases List.mem_append.mp hc with hc | hc
    · exact ⟨(h.additive c hc).1, (h.additive c hc).2.1, (h.additive c hc).2.2, h.distinct c hc⟩
    · rw [List.mem_singleton.mp hc]
      exact ⟨rfl, rfl, rfl, h.distinctLast⟩
  · rw [hchanged]
    exact h.copies

theorem told_reconcile (h : Swept server on ms init buf) (window : SyncWindow) (s : Told (Content δ)) (k : ProviderKey) :
    ((init.map (EmailChunk.within · window)).foldl (fun t c => t.addChunk c k) s).close
        (buf.filter fun m => m.key = k) (ms.map fun m => (server.stored on m).key) k =
      match latest Message.key (ms.map (server.stored on)) k with
      | some m =>
        if window.admits m.date = true ∨ k ∈ buf.map Message.key then Told.asSent [m] false else s
      | none => if s.object.isSome then Told.nothing else s := by
  have hinit := h.told_within init (fun c hc => ⟨(h.additive c hc).1, (h.additive c hc).2.1,
    (h.additive c hc).2.2, h.distinct c hc⟩)
    (fun x hx => h.copies x (List.mem_append_left buf hx)) window s k
  have hlast := h.last k
  rw [latest_append] at hlast
  rw [hinit, filter_eq_latest h.distinctLast]
  cases hk : latest Message.key (ms.map (server.stored on)) k with
  | none =>
    rw [hk, Option.or_eq_none_iff] at hlast
    have habsent : k ∉ ms.map fun m => (server.stored on m).key := by
      intro hmem
      obtain ⟨m, hm, he⟩ := List.mem_map.mp hmem
      exact Server.latest_stored_eq_none.mp hk m hm he
    rw [hlast.1, hlast.2]
    simp [Told.close, habsent]
  | some m =>
    have hpresent : k ∈ ms.map fun m => (server.stored on m).key := by
      obtain ⟨hmem, hkey⟩ := mem_of_latest hk
      obtain ⟨m', hm', rfl⟩ := List.mem_map.mp hmem
      exact List.mem_map.mpr ⟨m', hm', hkey⟩
    rw [hk] at hlast
    cases hbuf : latest Message.key buf k with
    | some x =>
      obtain ⟨hx, hkey⟩ := mem_of_latest hbuf
      have hxm : x = m := by
        rw [hbuf, Option.some_or] at hlast
        exact Option.some.inj hlast
      have hmem : k ∈ buf.map Message.key := List.mem_map.mpr ⟨x, hx, hkey⟩
      simp [Told.close, hpresent, hmem, hxm]
    | none =>
      have hmem : k ∉ buf.map Message.key := by
        intro hmem
        obtain ⟨x, hx, hkey⟩ := List.mem_map.mp hmem
        exact latest_eq_none.mp hbuf x hx hkey
      rw [hbuf, Option.none_or] at hlast
      rw [hlast]
      simp [Told.close, hpresent, hmem]

end Swept

end Imap
end SyncEngine
