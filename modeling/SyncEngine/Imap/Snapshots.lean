import SyncEngine.Imap.PageRuns

/-!
# What a snapshot leaves

The pages of a snapshot go down the UID space, each ending where its lowest message is.  Between them
they hold every message once, whatever the size of a page.
-/

namespace SyncEngine
namespace Imap

open Mail

variable {δ : Type}

/-- A page of a snapshot with some of the server's messages. -/
structure PageOf (server : Server δ) (on : Binding) (ms : List (ServerMessage δ))
    (page : SyncPage (Content δ)) : Prop where
  known : ∀ m ∈ ms, m ∈ server.messages
  kind : page.kind = .snapshot
  changed : ∀ x, x ∈ page.changed ↔ ∃ m ∈ ms, x = server.stored on m
  present : ∀ k, k ∈ page.present ↔ ∃ m ∈ ms, (server.stored on m).key = k
  patched : page.patched = []
  removed : page.removed = []

/-- Chunks of a reconciling pass that send some of the server's messages and count them present. -/
structure Covered (server : Server δ) (on : Binding) (ms : List (ServerMessage δ))
    (init : List (EmailChunk (Content δ))) : Prop where
  known : ∀ m ∈ ms, m ∈ server.messages
  held : ∀ c ∈ init, c.mode = .reconcile ∧ c.advanceTo = none
  changed : ∀ x, x ∈ init.flatMap EmailChunk.changed ↔ ∃ m ∈ ms, x = server.stored on m
  present : ∀ k, k ∈ init.flatMap EmailChunk.covers ↔ ∃ m ∈ ms, (server.stored on m).key = k
  patched : init.flatMap EmailChunk.patched = []
  removed : init.flatMap EmailChunk.removed = []

def snapshotLeaves (server : Server δ) (on : Binding) (P : ServerMessage δ → Bool)
    (s : Told (Content δ)) (k : ProviderKey) : Told (Content δ) :=
  match (server.find on k).filter P with
  | some m => Told.asSent [server.stored on m] false
  | none => if s.object.isSome then Told.nothing else s

section Covered

variable {server : Server δ} {on : Binding} {ms ms' : List (ServerMessage δ)}
  {init init' : List (EmailChunk (Content δ))}

theorem PageOf.covered {page : SyncPage (Content δ)} (h : PageOf server on ms page)
    (total : Option Nat) (chunkSize : Nat) :
    Covered server on ms (splitPage .reconcile page.changed page.patched page.removed page.present total chunkSize) where
  known := h.known
  held := fun c hc => ⟨(mem_splitPage _ _ _ _ _ _ _ hc).1, (mem_splitPage _ _ _ _ _ _ _ hc).2.1⟩
  changed := by
    rw [changed_splitPage]
    exact h.changed
  present := by
    rw [covers_splitPage, if_pos rfl]
    exact h.present
  patched := by rw [patched_splitPage, h.patched]
  removed := by rw [removed_splitPage, h.removed]

theorem Covered.append (h : Covered server on ms init) (h' : Covered server on ms' init') :
    Covered server on (ms ++ ms') (init ++ init') where
  known := by
    intro m hm
    rcases List.mem_append.mp hm with hm | hm
    · exact h.known m hm
    · exact h'.known m hm
  held := by
    intro c hc
    rcases List.mem_append.mp hc with hc | hc
    · exact h.held c hc
    · exact h'.held c hc
  changed := by
    intro x
    rw [List.flatMap_append, List.mem_append, h.changed, h'.changed]
    simp only [List.mem_append, or_and_right, exists_or]
  present := by
    intro k
    rw [List.flatMap_append, List.mem_append, h.present, h'.present]
    simp only [List.mem_append, or_and_right, exists_or]
  patched := by rw [List.flatMap_append, h.patched, h'.patched, List.append_nil]
  removed := by rw [List.flatMap_append, h.removed, h'.removed, List.append_nil]

theorem Covered.told [MailContent δ] (h : Covered server on ms init) {P : ServerMessage δ → Bool}
    (hP : ∀ m, m ∈ ms ↔ m ∈ server.messages ∧ P m = true) (kind : StoreKind) (window : SyncWindow)
    (cell : ScopeCell (Content δ)) (total : Option Nat) (cursor : SyncState) (k : ProviderKey) :
    (streamed kind window cell (init ++ [.reconcileLast [] [] total cursor])).told k =
      snapshotLeaves server on P (cell.told k) k := by
  have hlatest : latest Message.key (init.flatMap EmailChunk.changed) k =
      latest Message.key (ms.map (server.stored on)) k := by
    cases hk : latest Message.key (ms.map (server.stored on)) k with
    | none =>
      rw [latest_eq_none]
      intro x hx
      obtain ⟨m, hm, rfl⟩ := (h.changed x).mp hx
      exact Server.latest_stored_eq_none.mp hk m hm
    | some x =>
      obtain ⟨hx, rfl⟩ := mem_of_latest hk
      obtain ⟨m, hm, rfl⟩ := List.mem_map.mp hx
      apply latest_of_unique ((h.changed _).mpr ⟨m, hm, rfl⟩)
      intro y hy he
      obtain ⟨m', hm', rfl⟩ := (h.changed y).mp hy
      rw [Server.uid_injective (h.known m' hm') (h.known m hm) (Server.uid_of_key he)]
  rw [told_reconcilePages]
  · rw [hlatest, Server.latest_of_stored hP, h.patched, h.removed, if_neg List.not_mem_nil]
    unfold snapshotLeaves
    cases hfind : (server.find on k).filter P with
    | none =>
      have hpresent : k ∉ init.flatMap EmailChunk.covers := by
        intro hk
        obtain ⟨m, hm, he⟩ := (h.present k).mp hk
        obtain ⟨hm, hPm⟩ := (hP m).mp hm
        rw [Server.find_eq_some.mpr ⟨hm, he⟩] at hfind
        simp [Option.filter, hPm] at hfind
      simp [Told.close, hpresent, changesTo]
    | some m =>
      obtain ⟨hfound, hPm⟩ := Option.filter_eq_some_iff.mp hfind
      obtain ⟨hm, he⟩ := Server.find_eq_some.mp hfound
      have hpresent : k ∈ init.flatMap EmailChunk.covers := (h.present k).mpr ⟨m, (hP m).mpr ⟨hm, hPm⟩, he⟩
      simp [Told.close, hpresent]
  · exact h.held
  · intro c hc x hx y hy he
    obtain ⟨m, hm, rfl⟩ := (h.changed x).mp (List.mem_flatMap.mpr ⟨c, hc, hx⟩)
    obtain ⟨m', hm', rfl⟩ := (h.changed y).mp (List.mem_flatMap.mpr ⟨c, hc, hy⟩)
    rw [Server.uid_injective (h.known m hm) (h.known m' hm') (Server.uid_of_key he)]
  · rw [h.patched, h.removed]
    exact fun x _ => ⟨List.not_mem_nil, List.not_mem_nil⟩

end Covered

/-! ## A page of the whole mailbox -/

section Page

variable {server : Server δ} {on : Binding}

theorem mem_named_span {low high : Nat} (h : low ≤ high) {m : ServerMessage δ} :
    m ∈ server.named [.span low high] ↔ m ∈ server.messages ∧ low ≤ m.uid ∧ m.uid ≤ high := by
  rw [Server.mem_named]
  simp [Server.inRange, Nat.min_eq_left h, Nat.max_eq_right h]

/-- The ranges a page reads hold the messages down to where it stops: the floor, or far enough. -/
theorem collectDown_eq (chunk : Nat) (target : Option Nat) (fuel high : Nat) (hhigh : 1 ≤ high)
    (hfuel : high ≤ fuel) (before : List (ServerMessage δ)) :
    ∃ ms low reached, server.gives (collectDown 1 chunk target fuel high (before.map ServerMessage.metadata)) =
          ((before ++ ms).map ServerMessage.metadata, reached) ∧
      (ms.map ServerMessage.uid).Nodup ∧
      (∀ m, m ∈ ms ↔ m ∈ server.messages ∧ low ≤ m.uid ∧ m.uid ≤ high) ∧
      (reached = true → low ≤ 1) ∧
      (reached = false → ∃ t, target = some t ∧ t ≤ (before ++ ms).length) := by
  induction fuel generalizing high before with
  | zero => omega
  | succ fuel ih =>
    set low := max 1 (high - (chunk - 1)) with hlow
    have hle : low ≤ high := by omega
    have hnodup := @Server.named_nodup δ server [.span low high]
    have hmem := fun m => @mem_named_span δ server low high hle m
    rw [collectDown, ← hlow]
    simp only [Server.gives_bind, Server.gives_fetch, ← List.map_append]
    by_cases hfloor : low = 1
    · rw [if_pos hfloor, Server.gives_pure]
      exact ⟨_, low, true, rfl, hnodup, hmem, fun _ => by omega, fun h => absurd h (by simp)⟩
    · rw [if_neg hfloor]
      by_cases henough : (target.any fun target =>
          decide (target ≤ ((before ++ server.named [.span low high]).map ServerMessage.metadata).length)) = true
      · rw [if_pos henough, Server.gives_pure]
        refine ⟨_, low, false, rfl, hnodup, hmem, fun h => absurd h (by simp), fun _ => ?_⟩
        cases target with
        | none => simp at henough
        | some t =>
          refine ⟨t, rfl, ?_⟩
          rw [List.length_map] at henough
          exact of_decide_eq_true henough
      · rw [if_neg henough]
        obtain ⟨ms, low', reached, heq, hms, hmem', hreached, hstopped⟩ :=
          ih (low - 1) (by omega) (by omega) (before ++ server.named [.span low high])
        rw [heq]
        refine ⟨server.named [.span low high] ++ ms, min low' low, reached, ?_, ?_, ?_, ?_, ?_⟩
        · rw [List.append_assoc]
        · rw [List.map_append, List.nodup_append]
          refine ⟨hnodup, hms, ?_⟩
          intro uid huid uid' huid' he
          obtain ⟨m, hm, rfl⟩ := List.mem_map.mp huid
          obtain ⟨m', hm', rfl⟩ := List.mem_map.mp huid'
          have h₁ := ((hmem m).mp hm).2.1
          have h₂ := ((hmem' m').mp hm').2.2
          omega
        · intro m
          rw [List.mem_append, hmem, hmem']
          constructor
          · rintro (⟨hm, h₁, h₂⟩ | ⟨hm, h₁, h₂⟩)
            · exact ⟨hm, by omega, h₂⟩
            · exact ⟨hm, by omega, by omega⟩
          · rintro ⟨hm, h₁, h₂⟩
            by_cases hl : low ≤ m.uid
            · exact .inl ⟨hm, hl, h₂⟩
            · exact .inr ⟨hm, by omega, by omega⟩
        · intro h
          have := hreached h
          omega
        · intro h
          obtain ⟨t, ht, hlen⟩ := hstopped h
          exact ⟨t, ht, by rwa [List.append_assoc] at hlen⟩

def PageDown (server : Server δ) (on : Binding) (reaches : ServerMessage δ → Prop) (top : Nat)
    (above : Nat → ServerMessage δ → Prop) (page : SyncPage (Content δ)) : Prop :=
  ∃ ms, PageOf server on ms page ∧
    match page.nextPage with
    | none => ∀ m, m ∈ ms ↔ m ∈ server.messages ∧ reaches m
    | some boundary => boundary < top ∧
        ∀ m, m ∈ ms ↔ m ∈ server.messages ∧ reaches m ∧ above boundary m

theorem mem_drop_of_sorted {ms : List (ServerMessage δ)} (hms : ∀ m ∈ ms, m ∈ server.messages)
    {n : Nat} {m₀ : ServerMessage δ}
    (hhead : ((ms.insertionSort fun a b => a.uid ≤ b.uid).drop n).head? = some m₀)
    {m : ServerMessage δ} :
    m ∈ (ms.insertionSort fun a b => a.uid ≤ b.uid).drop n ↔ m ∈ ms ∧ m₀.uid ≤ m.uid := by
  set sorted := ms.insertionSort fun a b => a.uid ≤ b.uid with hsorted
  have hperm : sorted.Perm ms := List.perm_insertionSort _ _
  have hpair : sorted.Pairwise fun a b => a.uid ≤ b.uid := by
    have : Std.Total fun a b : ServerMessage δ => a.uid ≤ b.uid := ⟨fun a b => Nat.le_total _ _⟩
    have : IsTrans (ServerMessage δ) fun a b => a.uid ≤ b.uid := ⟨fun a b c h h' => Nat.le_trans h h'⟩
    exact List.pairwise_insertionSort _ ms
  obtain ⟨rest, hrest⟩ : ∃ rest, sorted.drop n = m₀ :: rest := by
    cases hdrop : sorted.drop n with
    | nil => simp [hdrop] at hhead
    | cons first rest =>
      rw [hdrop] at hhead
      exact ⟨rest, by rw [Option.some.inj hhead]⟩
  have hcut : sorted = sorted.take n ++ m₀ :: rest := by rw [← hrest, List.take_append_drop]
  rw [hcut, List.pairwise_append, List.pairwise_cons] at hpair
  rw [hrest]
  constructor
  · intro hm
    have hmem : m ∈ ms := by
      rw [← hperm.mem_iff, hcut]
      exact List.mem_append_right _ hm
    rcases List.mem_cons.mp hm with rfl | hm
    · exact ⟨hmem, Nat.le_refl _⟩
    · exact ⟨hmem, hpair.2.1.1 m hm⟩
  · intro ⟨hm, hle⟩
    have hsplit : m ∈ sorted.take n ++ m₀ :: rest := by
      rw [← hcut]
      exact hperm.mem_iff.mpr hm
    rcases List.mem_append.mp hsplit with htake | hdrop
    · have hge := hpair.2.2 m htake m₀ List.mem_cons_self
      have hm₀ : m₀ ∈ ms := by
        rw [← hperm.mem_iff, hcut]
        simp
      rw [Server.uid_injective (hms m hm) (hms m₀ hm₀) (Nat.le_antisymm hge hle)]
      exact List.mem_cons_self
    · exact hdrop

theorem snapshotFrom_down (nextCursor : SyncState) {high : Nat} (hhigh : 1 ≤ high) (limit : Nat) (total : Option Nat) :
    PageDown server on (fun m => m.uid ≤ high) high (fun boundary m => boundary < m.uid)
      (server.gives (snapshotFrom on server.uidValidity nextCursor 1 high limit total)) := by
  unfold snapshotFrom
  set target := if limit = 0 then none else some limit with htarget
  obtain ⟨ms, low, reached, heq, hnodup, hmem, hreached, hstopped⟩ :=
    @collectDown_eq δ server (if limit = 0 then high - 1 + 1 else min limit (2 ^ 32 - 1)) target
      (high + 1) high hhigh (by omega) []
  rw [List.map_nil, List.nil_append] at heq
  rw [List.nil_append] at hstopped
  have hms : ∀ m ∈ ms, m ∈ server.messages := fun m hm => ((hmem m).mp hm).1
  have hsort : (ms.map ServerMessage.metadata).insertionSort (fun a b => a.uid ≤ b.uid) =
      (ms.insertionSort fun a b => a.uid ≤ b.uid).map ServerMessage.metadata :=
    (List.map_insertionSort (fun a b : ServerMessage δ => a.uid ≤ b.uid)
      (fun a b : FetchRow δ => a.uid ≤ b.uid) ServerMessage.metadata ms fun a _ b _ => Iff.rfl).symm
  set sorted := ms.insertionSort fun a b => a.uid ≤ b.uid with hsorted
  have hperm : sorted.Perm ms := List.perm_insertionSort _ _
  set n := sorted.length - target.getD sorted.length with hn
  have hkept : ∀ m ∈ sorted.drop n, m ∈ ms := fun m hm => hperm.mem_iff.mp (List.mem_of_mem_drop hm)
  have hsettled : server.gives (settleAttachments on.session
      ((sorted.map ServerMessage.metadata).drop n)) = (sorted.drop n).map ServerMessage.settled := by
    rw [← List.map_drop]
    apply gives_settleAttachments
    · exact fun m hm => hms m (hkept m hm)
    · exact ((hperm.map _).nodup_iff.mpr hnodup).sublist ((List.drop_sublist n sorted).map _)
  simp only [Server.gives_bind, heq, hsort, List.length_map, ← hn, hsettled, Server.gives_pure]
  have hpage : ∀ nextPage, PageOf server on (sorted.drop n)
      ⟨.snapshot, ((sorted.drop n).map ServerMessage.settled).reverse.map
          (fun row => messageFromFetch row on.mailbox server.uidValidity), [], [],
        (((sorted.drop n).map ServerMessage.settled).reverse.map
          (fun row => messageFromFetch row on.mailbox server.uidValidity)).map Message.key,
        nextPage, nextCursor, total⟩ := by
    intro nextPage
    have hchanged : ∀ x, x ∈ ((sorted.drop n).map ServerMessage.settled).reverse.map
        (fun row => messageFromFetch row on.mailbox server.uidValidity) ↔
          ∃ m ∈ sorted.drop n, x = server.stored on m := by
      intro x
      simp only [List.mem_map, List.mem_reverse]
      constructor
      · rintro ⟨row, ⟨m, hm, rfl⟩, rfl⟩
        exact ⟨m, hm, rfl⟩
      · rintro ⟨m, hm, rfl⟩
        exact ⟨m.settled, ⟨m, hm, rfl⟩, rfl⟩
    refine ⟨fun m hm => hms m (hkept m hm), rfl, hchanged, ?_, rfl, rfl⟩
    intro k
    rw [List.mem_map]
    constructor
    · rintro ⟨x, hx, rfl⟩
      obtain ⟨m, hm, rfl⟩ := (hchanged x).mp hx
      exact ⟨m, hm, rfl⟩
    · rintro ⟨m, hm, rfl⟩
      exact ⟨_, (hchanged _).mpr ⟨m, hm, rfl⟩, rfl⟩
  refine ⟨sorted.drop n, hpage _, ?_⟩
  by_cases hmore : (target.any (fun target => decide (target < sorted.length)) || !reached) = true
  · -- a full page: it stops at its lowest message
    obtain ⟨t, ht, htlen⟩ : ∃ t, target = some t ∧ t ≤ sorted.length := by
      rw [Bool.or_eq_true] at hmore
      rcases hmore with hover | hstop
      · cases htarget' : target with
        | none => simp [htarget'] at hover
        | some t =>
          rw [htarget'] at hover
          exact ⟨t, rfl, Nat.le_of_lt (of_decide_eq_true hover)⟩
      · obtain ⟨t, ht, hlen⟩ := hstopped (by simpa using hstop)
        exact ⟨t, ht, by rwa [hperm.length_eq]⟩
    have htpos : 0 < t := by
      rw [htarget] at ht
      by_cases hlimit : limit = 0
      · rw [if_pos hlimit] at ht
        simp at ht
      · rw [if_neg hlimit] at ht
        have := Option.some.inj ht
        omega
    have hne : sorted.drop n ≠ [] := by
      intro hnil
      have hlen := congrArg List.length hnil
      rw [List.length_drop, hn, ht, Option.getD_some, List.length_nil] at hlen
      omega
    obtain ⟨m₀, hhead⟩ : ∃ m₀, (sorted.drop n).head? = some m₀ := by
      cases hdrop : sorted.drop n with
      | nil => exact absurd hdrop hne
      | cons m₀ rest => exact ⟨m₀, rfl⟩
    have hdown := fun m => @mem_drop_of_sorted δ server ms hms n m₀ hhead m
    have hm₀ : m₀ ∈ ms := hkept m₀ (List.mem_of_head? hhead)
    have hm₀' := (hmem m₀).mp hm₀
    have hpos := server.uid_pos m₀ hm₀'.1
    have hboundary : (((sorted.drop n).map ServerMessage.settled).head?.bind fun row =>
        if row.uid = 0 then none else some (row.uid - 1)) = some (m₀.uid - 1) := by
      rw [List.head?_map, hhead]
      show (if m₀.uid = 0 then none else some (m₀.uid - 1)) = _
      rw [if_neg (by omega)]
    rw [if_pos hmore, hboundary]
    by_cases hone : 1 ≤ m₀.uid - 1
    · have hfilter : (some (m₀.uid - 1)).filter (fun boundary => decide (1 ≤ boundary)) =
          some (m₀.uid - 1) := by simp [Option.filter, hone]
      rw [hfilter]
      refine ⟨by omega, fun m => ?_⟩
      rw [hdown, hmem]
      have hlow := hm₀'.2.1
      constructor
      · rintro ⟨⟨hm, -, hle⟩, hge⟩
        exact ⟨hm, hle, by show m₀.uid - 1 < m.uid; omega⟩
      · rintro ⟨hm, hle, hgt⟩
        have hgt : m₀.uid - 1 < m.uid := hgt
        exact ⟨⟨hm, by omega, hle⟩, by omega⟩
    · have hfilter : (some (m₀.uid - 1)).filter (fun boundary => decide (1 ≤ boundary)) =
          none := by simp [Option.filter, hone]
      rw [hfilter]
      intro m
      rw [hdown, hmem]
      constructor
      · rintro ⟨⟨hm, -, hle⟩, -⟩
        exact ⟨hm, hle⟩
      · rintro ⟨hm, hle⟩
        have := server.uid_pos m hm
        exact ⟨⟨hm, by omega, hle⟩, by omega⟩
  · -- the last page
    rw [if_neg hmore]
    rw [Bool.or_eq_true, not_or] at hmore
    have hfloor := hreached (by simpa using hmore.2)
    have hall : n = 0 := by
      rw [hn]
      cases htarget' : target with
      | none =>
        rw [Option.getD_none]
        omega
      | some t =>
        have hlen : ¬t < sorted.length := by simpa [htarget'] using hmore.1
        rw [Option.getD_some]
        omega
    intro m
    rw [hall, List.drop_zero, hperm.mem_iff, hmem]
    constructor
    · rintro ⟨hm, -, hle⟩
      exact ⟨hm, hle⟩
    · rintro ⟨hm, hle⟩
      have := server.uid_pos m hm
      exact ⟨hm, by omega, hle⟩

end Page

/-! ## A page of a window -/

section Window

variable {server : Server δ} {on : Binding}

theorem le_of_ascending {uids : List Nat} (h : uids ≠ []) :
    (ascending uids).headD 0 ∈ uids ∧ ∀ uid ∈ uids, (ascending uids).headD 0 ≤ uid := by
  have hperm : (ascending uids).Perm uids := List.perm_insertionSort _ _
  have hpair : (ascending uids).Pairwise (· ≤ ·) := List.pairwise_insertionSort _ uids
  cases hsorted : ascending uids with
  | nil =>
    rw [hsorted] at hperm
    exact absurd hperm.symm.eq_nil h
  | cons first rest =>
    rw [hsorted, List.pairwise_cons] at hpair
    rw [hsorted] at hperm
    refine ⟨hperm.mem_iff.mp List.mem_cons_self, ?_⟩
    intro uid huid
    rcases List.mem_cons.mp (hperm.mem_iff.mpr huid) with rfl | hrest
    · exact Nat.le_refl _
    · exact hpair.1 uid hrest

theorem mem_take_descending {uids : List Nat} {n low : Nat}
    (hlow : low ∈ (descending uids).take n) (hleast : ∀ uid ∈ (descending uids).take n, low ≤ uid)
    {uid : Nat} : uid ∈ (descending uids).take n ↔ uid ∈ uids ∧ low ≤ uid := by
  have hperm : (descending uids).Perm uids := List.perm_insertionSort _ _
  have hpair : (descending uids).Pairwise (· ≥ ·) := List.pairwise_insertionSort _ uids
  rw [← List.take_append_drop n (descending uids), List.pairwise_append] at hpair
  constructor
  · intro h
    exact ⟨hperm.mem_iff.mp (List.mem_of_mem_take h), hleast uid h⟩
  · intro ⟨hmem, hle⟩
    have hsplit : uid ∈ (descending uids).take n ++ (descending uids).drop n := by
      rw [List.take_append_drop]
      exact hperm.mem_iff.mpr hmem
    rcases List.mem_append.mp hsplit with h | h
    · exact h
    · have hge := hpair.2.2 low hlow uid h
      have : uid = low := Nat.le_antisymm hge hle
      rw [this]
      exact hlow

def windowReach (floor : CalendarDate) (page : Option Nat) (m : ServerMessage δ) : Prop :=
  inWindow (some floor) m = true ∧ ∀ boundary, page = some boundary → m.uid < boundary

theorem emptyPage_of (kind : SyncKind) (hkind : kind = .snapshot) (nextCursor : SyncState)
    (total : Option Nat) : PageOf server on [] (emptyPage kind nextCursor total) := by
  subst hkind
  exact ⟨fun m hm => absurd hm List.not_mem_nil, rfl,
    fun x => by simp [emptyPage], fun k => by simp [emptyPage], rfl, rfl⟩

theorem windowedSnapshot_down (nextCursor : SyncState) (page : Option Nat) (limit : Nat) (floor : CalendarDate) :
    PageDown server on (windowReach floor page) (page.getD (server.next on)) (fun boundary m => boundary ≤ m.uid)
      (server.gives (windowedSnapshot on server.uidValidity nextCursor page limit floor)) := by
  unfold windowedSnapshot
  rw [Server.gives_bind, Server.gives_searchSince]
  dsimp only
  set found := ascending (server.since floor) with hfound
  set chunk := windowedChunk found page limit with hchunk
  have hpending : ∀ m ∈ server.messages,
      m.uid ∈ found.filter (fun uid => page.all fun boundary => decide (uid < boundary)) ↔ windowReach floor page m := by
    intro m hm
    rw [List.mem_filter, hfound, Server.mem_ascending, Server.uid_mem_since hm]
    unfold windowReach
    cases page with
    | none => simp
    | some boundary => simp
  have hwhole : ∀ uid, uid ∈ chunk → ∃ m ∈ server.messages, m.uid = uid := by
    intro uid huid
    have hmem := List.mem_of_mem_take huid
    rw [Server.mem_descending] at hmem
    have hsince := (List.mem_filter.mp hmem).1
    rw [hfound, Server.mem_ascending, Server.mem_since] at hsince
    obtain ⟨m, hm, -, he⟩ := hsince
    exact ⟨m, hm, he⟩
  by_cases hempty : chunk.isEmpty = true
  · rw [if_pos hempty, Server.gives_pure]
    rw [List.isEmpty_iff] at hempty
    refine ⟨[], emptyPage_of _ rfl _ _, fun m => ?_⟩
    refine iff_of_false List.not_mem_nil ?_
    intro ⟨hm, hreach⟩
    have hmem := (hpending m hm).mpr hreach
    have hpos := List.length_pos_of_mem hmem
    rw [hchunk] at hempty
    unfold windowedChunk at hempty
    rw [List.take_eq_nil_iff] at hempty
    have hlength : (descending (found.filter fun uid =>
        page.all fun boundary => decide (uid < boundary))).length =
          (found.filter fun uid => page.all fun boundary => decide (uid < boundary)).length :=
      (List.perm_insertionSort _ _).length_eq
    rcases hempty with h | h
    · by_cases hlimit : limit = 0
      · rw [if_pos hlimit] at h
        omega
      · rw [if_neg hlimit] at h
        exact hlimit h
    · rw [h, List.length_nil] at hlength
      omega
  · rw [if_neg hempty]
    rw [List.isEmpty_iff] at hempty
    unfold windowedSnapshotPage
    simp only [Server.gives_bind, Server.gives_pure, gives_uidFetchMetadata]
    obtain ⟨hlowest, hleast⟩ := le_of_ascending hempty
    set lowest := (ascending chunk).headD 0 with hlow
    have hmem : ∀ m, m ∈ server.named (uidSetSpec (ascending chunk)) ↔
        m ∈ server.messages ∧ windowReach floor page m ∧ lowest ≤ m.uid := by
      intro m
      rw [Server.mem_named_uidSetSpec, Server.mem_ascending]
      refine and_congr_right fun hm => ?_
      rw [← hpending m hm]
      exact mem_take_descending hlowest hleast
    have hchanged : ∀ x, x ∈ (newestFirst ((server.named (uidSetSpec (ascending chunk))).map
        ServerMessage.settled)).map (fun row => messageFromFetch row on.mailbox server.uidValidity) ↔
          ∃ m ∈ server.named (uidSetSpec (ascending chunk)), x = server.stored on m := by
      intro x
      simp only [newestFirst, List.mem_map, (List.perm_insertionSort _ _).mem_iff]
      constructor
      · rintro ⟨row, ⟨m, hm, rfl⟩, rfl⟩
        exact ⟨m, hm, rfl⟩
      · rintro ⟨m, hm, rfl⟩
        exact ⟨m.settled, ⟨m, hm, rfl⟩, rfl⟩
    refine ⟨server.named (uidSetSpec (ascending chunk)),
      ⟨fun m hm => (Server.mem_named.mp hm).1, rfl, hchanged, ?_, rfl, rfl⟩, ?_⟩
    · intro k
      rw [List.mem_map]
      constructor
      · rintro ⟨x, hx, rfl⟩
        obtain ⟨m, hm, rfl⟩ := (hchanged x).mp hx
        exact ⟨m, hm, rfl⟩
      · rintro ⟨m, hm, rfl⟩
        exact ⟨_, (hchanged _).mpr ⟨m, hm, rfl⟩, rfl⟩
    · dsimp only
      by_cases hmore : (found.any fun uid => decide (uid < lowest)) = true
      · rw [if_pos hmore]
        refine ⟨?_, hmem⟩
        obtain ⟨m, hm, he⟩ := hwhole lowest hlowest
        have hreach := ((hmem m).mp (Server.mem_named_uidSetSpec.mpr ⟨hm, Server.mem_ascending.mpr (he ▸ hlowest)⟩)).2.1
        have hlt := @Server.uid_lt_next δ server on m hm
        cases hpage : page with
        | none =>
          rw [Option.getD_none]
          omega
        | some boundary =>
          have := hreach.2 boundary hpage
          rw [Option.getD_some]
          omega
      · rw [if_neg hmore]
        intro m
        rw [hmem]
        refine and_congr_right fun hm => and_iff_left_of_imp fun hreach => ?_
        by_contra hlt
        apply hmore
        rw [List.any_eq_true]
        refine ⟨m.uid, ?_, decide_eq_true (by omega)⟩
        rw [hfound, Server.mem_ascending, Server.uid_mem_since hm]
        exact hreach.1

end Window

end Imap
end SyncEngine
