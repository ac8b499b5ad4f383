import Mathlib
import SyncEngine.Library.Keyed
import SyncEngine.Library.Lists

/-!
# Searching mail

A search with text ranks the messages by two indexes, takes the best of each and adds up what each rank is worth.
Both lists are of rows, not of keys: a message that is held in two scopes is in them twice.
-/

namespace SyncEngine
namespace Search

open StableSort (sortBy sortBy_perm sortBy_pairwise)

/-! ## Reciprocal rank fusion -/

/-- What a place in a list is worth, the first place being 0. -/
def contribution (k index : Nat) : ℚ := 1 / (k + min (index + 1) (2 ^ 32 - 1) : ℕ)

def scores (k : Nat) (ranked : List (String × Nat)) (t : Keyed String ℚ) : Keyed String ℚ :=
  ranked.foldl (fun t (key, index) => t.put key ((t.get? key).getD 0 + contribution k index)) t

/-- Fuses ranked lists, the highest score first and equal ones as they are first seen. -/
def fuse (lists : List (List String)) (k : Nat) : List (String × ℚ) :=
  sortBy (fun row => -row.2) (scores k (lists.flatMap List.zipIdx) .empty).rows

def defaultK : Nat := 60

/-! ## The store -/

structure MessageRow (φ : Type) where
  scopeKey : String
  providerKey : String
  dateUtc : Int
  columns : φ

structure FtsDoc (δ : Type) where
  scopeKey : String
  providerKey : String
  fields : δ

structure MessageBody (β : Type) where
  account : String
  providerKey : String
  plain : β

/-- A full-text index: what a match string matches, and how well. -/
structure FtsIndex (δ : Type) where
  isMatch : String → δ → Bool
  bm25 : String → δ → ℚ

/-- How rows are put in the order of a rank: which of two equal ones is first is the database's choice. -/
structure OrderBy (ρ : Type) [LinearOrder ρ] where
  run : List (String × ρ) → List (String × ρ)
  perm : ∀ rows, (run rows).Perm rows
  pairwise : ∀ rows, (run rows).Pairwise fun a b => a.2 ≤ b.2

def OrderBy.stable (ρ : Type) [LinearOrder ρ] : OrderBy ρ :=
  ⟨sortBy Prod.snd, sortBy_perm, sortBy_pairwise⟩

/-- The tables a search reads, with their indexes.  A provider key may be in several scopes. -/
structure Connection (φ δ β : Type) where
  message : List (MessageRow φ)
  ftsDoc : List (FtsDoc δ)
  messageBody : List (MessageBody β)
  ftsIndex : FtsIndex δ
  messageBodyFts : FtsIndex β
  byRank : OrderBy ℚ
  byDate : OrderBy (OrderDual Int)

inductive TextField
  | subject
  | location

structure TextQuery where
  unscoped : List String
  «scoped» : List (TextField × String)

/-- The text of a query, and what its other terms ask of a row. -/
structure MailQuery (φ : Type) where
  text : TextQuery
  filter : MessageRow φ → Bool

def quoteTerm (term : String) : String :=
  "\"" ++ String.ofList (term.toList.flatMap fun c => if c = '"' then ['"', '"'] else [c]) ++ "\"*"

def ftsMatch (text : TextQuery) : Option String :=
  if text.unscoped.isEmpty && text.«scoped».isEmpty then none
  else
    some (" ".intercalate (text.unscoped.map quoteTerm ++ text.«scoped».map fun (field, term) =>
      (match field with
        | .subject => "subject"
        | .location => "location") ++ ":" ++ quoteTerm term))

def bodyMatch (text : TextQuery) : Option String :=
  if text.unscoped.isEmpty then none else some (" ".intercalate (text.unscoped.map quoteTerm))

section Run

variable {φ δ β : Type} (conn : Connection φ δ β) (account : String) (scopeKeys : List String) (query : MailQuery φ)

def admitted : List (MessageRow φ) :=
  conn.message.filter fun mi => scopeKeys.contains mi.scopeKey && query.filter mi

def ftsRows (text : String) : List String :=
  (conn.byRank.run ((admitted conn scopeKeys query).flatMap fun mi =>
    (conn.ftsDoc.filter fun f => f.scopeKey = mi.scopeKey && f.providerKey = mi.providerKey &&
      conn.ftsIndex.isMatch text f.fields).map fun f =>
        (mi.providerKey, conn.ftsIndex.bm25 text f.fields))).map Prod.fst

/-- The keys it finds in the text of the bodies. -/
def bodyRows : List String :=
  match bodyMatch query.text with
  | none => []
  | some text =>
    (conn.byRank.run ((conn.messageBody.filter fun mb =>
      mb.account = account && conn.messageBodyFts.isMatch text mb.plain).flatMap fun mb =>
        ((admitted conn scopeKeys query).filter fun mi => mi.providerKey = mb.providerKey).map
          fun _ => (mb.providerKey, conn.messageBodyFts.bm25 text mb.plain))).map Prod.fst

/-- The keys of a search without text, the latest message first. -/
def scalarRows : List String :=
  (conn.byDate.run ((admitted conn scopeKeys query).map fun mi =>
    (mi.providerKey, OrderDual.toDual mi.dateUtc))).map Prod.fst

/-- The keys of the rows each statement of a search selects, before its limit. -/
def selected : List (List String) :=
  match ftsMatch query.text with
  | some text => [ftsRows conn scopeKeys query text, bodyRows conn account scopeKeys query]
  | none => [scalarRows conn scopeKeys query]

/-- The candidates.  A limit past an `i64` is past every number of rows. -/
def candidates (limit : Nat) : List (List String) :=
  (selected conn account scopeKeys query).map (List.take limit)

def searchMail (limit : Nat) : List (String × ℚ) :=
  if scopeKeys.isEmpty then []
  else
    match ftsMatch query.text with
    | some _ => (fuse (candidates conn account scopeKeys query limit) defaultK).take limit
    | none => (candidates conn account scopeKeys query limit).flatten.map fun key => (key, 0)

/-! ## What a search is for -/

def IsHit (key : String) : Prop :=
  ∃ mi ∈ admitted conn scopeKeys query, mi.providerKey = key ∧ ∀ text ∈ ftsMatch query.text,
    (∃ f ∈ conn.ftsDoc, f.scopeKey = mi.scopeKey ∧ f.providerKey = key ∧ conn.ftsIndex.isMatch text f.fields) ∨
      ∃ mb ∈ conn.messageBody, mb.account = account ∧ mb.providerKey = key ∧
        ∃ words ∈ bodyMatch query.text, conn.messageBodyFts.isMatch words mb.plain

/-- Each hit is named once, as many of them as the limit allows, and scored once for each list it is a
candidate in. -/
structure NamesEachOnce (limit : Nat) : Prop where
  distinct : ((searchMail conn account scopeKeys query limit).map Prod.fst).Nodup
  hit : ∀ row ∈ searchMail conn account scopeKeys query limit, IsHit conn account scopeKeys query row.1
  complete : (searchMail conn account scopeKeys query limit).length =
    min limit (Set.ncard {key | IsHit conn account scopeKeys query key})
  scoredOnce : (ftsMatch query.text).isSome → ∀ row ∈ fuse (candidates conn account scopeKeys query limit) defaultK,
    row.2 = ((candidates conn account scopeKeys query limit).map fun list =>
      if row.1 ∈ list then contribution defaultK (list.idxOf row.1) else 0).sum

end Run

/-! ## What fusion scores -/

variable (k : Nat) (key : String)

theorem contribution_pos (index : Nat) : 0 < contribution k index := by
  have h : 0 < k + min (index + 1) (2 ^ 32 - 1) := by omega
  have hq : (0 : ℚ) < (k + min (index + 1) (2 ^ 32 - 1) : ℕ) := by exact_mod_cast h
  rw [contribution]
  positivity

/-- What the places of a key are worth together, from place `n` on. -/
def worth (list : List (String × Nat)) : ℚ :=
  ((list.filter fun r => r.1 = key).map fun r => contribution k r.2).sum

theorem worth_append (a b : List (String × Nat)) : worth k key (a ++ b) = worth k key a + worth k key b := by
  simp [worth]

theorem worth_cons (r : String × Nat) (list : List (String × Nat)) :
    worth k key (r :: list) = (if r.1 = key then contribution k r.2 else 0) + worth k key list := by
  by_cases h : r.1 = key
  · simp [worth, h]
  · simp [worth, h]

theorem worth_eq_zero {list : List (String × Nat)} (h : key ∉ list.map Prod.fst) : worth k key list = 0 := by
  have hnone : (list.filter fun r => r.1 = key) = [] := by
    rw [List.filter_eq_nil_iff]
    intro r hr hk
    exact h (List.mem_map.mpr ⟨r, hr, by simpa using hk⟩)
  rw [worth, hnone]
  rfl

theorem get?_scores (ranked : List (String × Nat)) (t : Keyed String ℚ) : (scores k ranked t).get? key =
      if key ∈ ranked.map Prod.fst then some ((t.get? key).getD 0 + worth k key ranked) else t.get? key := by
  induction ranked generalizing t with
  | nil => rfl
  | cons r rest ih =>
    show (scores k rest (t.put r.1 _)).get? key = _
    rw [ih, Keyed.get?_put, List.map_cons, worth_cons]
    by_cases h : key = r.1
    · by_cases hin : r.1 ∈ rest.map Prod.fst
      · simp only [h, hin, if_true, List.mem_cons_self, Option.getD_some, add_assoc]
      · have hz : worth k r.1 rest = 0 := worth_eq_zero k r.1 hin
        simp only [h, hin, if_true, if_false, List.mem_cons_self, hz, add_zero]
    · simp only [List.mem_cons, h, if_false, false_or, Ne.symm h, zero_add]

theorem keys_ranked (lists : List (List String)) : (lists.flatMap List.zipIdx).map Prod.fst = lists.flatten := by
  induction lists with
  | nil => rfl
  | cons list rest ih => simp [ih]

theorem mem_fuse (lists : List (List String)) (row : String × ℚ) :
    row ∈ fuse lists k ↔ row.1 ∈ lists.flatten ∧ row.2 = worth k row.1 (lists.flatMap List.zipIdx) := by
  rw [fuse, (sortBy_perm _).mem_iff, ← Prod.mk.eta (p := row), ← Keyed.get?_eq_some_iff, get?_scores, keys_ranked]
  by_cases h : row.1 ∈ lists.flatten
  · simp [h, eq_comm]
  · simp [h]

theorem fuse_keys (lists : List (List String)) : ((fuse lists k).map Prod.fst).Perm lists.flatten.dedup := by
  refine (List.perm_ext_iff_of_nodup ?_ (List.nodup_dedup _)).mpr ?_
  · exact ((sortBy_perm _).map Prod.fst).nodup_iff.mpr (Keyed.distinct _)
  · intro key
    rw [List.mem_dedup, List.mem_map]
    constructor
    · intro ⟨row, hrow, hkey⟩
      exact hkey ▸ ((mem_fuse k lists row).mp hrow).1
    · intro h
      exact ⟨(key, worth k key (lists.flatMap List.zipIdx)), (mem_fuse k lists _).mpr ⟨h, rfl⟩, rfl⟩

/-- What a list adds to a score when it counts a key at its first place only. -/
def once (list : List String) (n : Nat) : ℚ :=
  if key ∈ list then contribution k (n + list.idxOf key) else 0

theorem worth_zipIdx (list : List String) (n : Nat) : once k key list n ≤ worth k key (list.zipIdx n) ∧
      (worth k key (list.zipIdx n) = once k key list n ↔ list.count key ≤ 1) := by
  induction list generalizing n with
  | nil => simp [once, worth]
  | cons a rest ih =>
    have hrest := ih (n + 1)
    rw [List.zipIdx_cons, worth_cons]
    by_cases ha : a = key
    · have hself : once k key (a :: rest) n = contribution k n := by simp [once, ha]
      rw [hself, if_pos ha, ha, List.count_cons_self]
      by_cases hin : key ∈ rest
      · have hone : once k key rest (n + 1) = contribution k (n + 1 + rest.idxOf key) := if_pos hin
        have hpos := contribution_pos k (n + 1 + rest.idxOf key)
        have hcount : 0 < rest.count key := List.count_pos_iff.mpr hin
        refine ⟨by linarith, ⟨fun h => by linarith, fun h => by omega⟩⟩
      · have hz : worth k key (rest.zipIdx (n + 1)) = 0 := worth_eq_zero k key (by simpa using hin)
        rw [hz, List.count_eq_zero.mpr hin]
        simp
    · have hnext : once k key (a :: rest) n = once k key rest (n + 1) := by
        rw [once, once, List.idxOf_cons_ne _ ha]
        simp only [List.mem_cons, Ne.symm ha, false_or, Nat.add_succ, Nat.succ_add]
      rw [hnext, if_neg ha, zero_add, List.count_cons_of_ne ha]
      exact hrest

theorem worth_flatMap (lists : List (List String)) :
    (lists.map fun list => once k key list 0).sum ≤ worth k key (lists.flatMap List.zipIdx) ∧
      (worth k key (lists.flatMap List.zipIdx) = (lists.map fun list => once k key list 0).sum ↔
        ∀ list ∈ lists, list.count key ≤ 1) := by
  induction lists with
  | nil => simp [worth]
  | cons list rest ih =>
    have hlist := worth_zipIdx k key list 0
    rw [List.flatMap_cons, worth_append, List.map_cons, List.sum_cons, List.forall_mem_cons, ← hlist.2, ← ih.2]
    refine ⟨by linarith, ⟨fun h => ⟨by linarith, by linarith⟩, fun h => by linarith⟩⟩

theorem scored_once_iff (lists : List (List String)) :
    (∀ row ∈ fuse lists k, row.2 = (lists.map fun list => once k row.1 list 0).sum) ↔ ∀ list ∈ lists, list.Nodup := by
  constructor
  · intro h list hlist
    refine List.nodup_iff_count_le_one.mpr fun key => ?_
    by_cases hin : key ∈ list
    · have hkey : key ∈ lists.flatten := List.mem_flatten.mpr ⟨list, hlist, hin⟩
      exact (worth_flatMap k key lists).2.mp (h (key, _) ((mem_fuse k lists _).mpr ⟨hkey, rfl⟩)) list hlist
    · exact (List.count_eq_zero.mpr hin).le.trans (Nat.zero_le 1)
  · intro h row hrow
    rw [((mem_fuse k lists row).mp hrow).2]
    exact (worth_flatMap k row.1 lists).2.mpr fun list hlist => List.nodup_iff_count_le_one.mp (h list hlist) row.1

/-! ## How many the limit leaves -/

theorem card_cut {lists : List (List String)} {n : Nat} (h : ∀ list ∈ lists, (list.take n).Nodup) :
    min n (lists.map (List.take n)).flatten.toFinset.card = min n lists.flatten.toFinset.card := by
  by_cases hshort : ∀ list ∈ lists, list.length ≤ n
  · have hsame : lists.map (List.take n) = lists.map id :=
      List.map_congr_left fun list hlist => List.take_of_length_le (hshort list hlist)
    rw [hsame, List.map_id]
  · push Not at hshort
    obtain ⟨list, hlist, hlong⟩ := hshort
    have hcut : (list.take n).toFinset ⊆ (lists.map (List.take n)).flatten.toFinset := by
      intro key hkey
      rw [List.mem_toFinset] at hkey ⊢
      exact List.mem_flatten.mpr ⟨_, List.mem_map_of_mem hlist, hkey⟩
    have hall : (lists.map (List.take n)).flatten.toFinset ⊆ lists.flatten.toFinset := by
      intro key hkey
      rw [List.mem_toFinset, List.mem_flatten] at hkey ⊢
      obtain ⟨cut, hmem, hkey⟩ := hkey
      obtain ⟨whole, hwhole, rfl⟩ := List.mem_map.mp hmem
      exact ⟨whole, hwhole, List.mem_of_mem_take hkey⟩
    have hn : (list.take n).toFinset.card = n := by
      rw [List.toFinset_card_of_nodup (h list hlist), List.length_take, min_eq_left hlong.le]
    have h1 := Finset.card_le_card hcut
    have h2 := Finset.card_le_card hall
    omega

section Run

variable {φ δ β : Type} (conn : Connection φ δ β) (account : String) (scopeKeys : List String) (query : MailQuery φ)

@[simp] theorem OrderBy.mem_run {ρ : Type} [LinearOrder ρ] (o : OrderBy ρ) (rows : List (String × ρ))
    (row : String × ρ) : row ∈ o.run rows ↔ row ∈ rows :=
  (o.perm rows).mem_iff

theorem mem_selected (key : String) :
    key ∈ (selected conn account scopeKeys query).flatten ↔ IsHit conn account scopeKeys query key := by
  cases hm : ftsMatch query.text with
  | none => simp [selected, IsHit, hm, scalarRows, OrderBy.mem_run]
  | some text =>
    have hbody : key ∈ bodyRows conn account scopeKeys query ↔ ∃ mi ∈ admitted conn scopeKeys query,
        mi.providerKey = key ∧ ∃ mb ∈ conn.messageBody, mb.account = account ∧ mb.providerKey = key ∧
          ∃ words ∈ bodyMatch query.text, conn.messageBodyFts.isMatch words mb.plain := by
      rw [bodyRows]
      cases hw : bodyMatch query.text with
      | none => simp
      | some words =>
        simp only [OrderBy.mem_run, List.mem_flatMap, List.mem_map, List.mem_filter, decide_eq_true_eq,
          Bool.and_eq_true, Option.mem_some_iff, exists_eq_left']
        grind
    have hfts : key ∈ ftsRows conn scopeKeys query text ↔ ∃ mi ∈ admitted conn scopeKeys query,
        mi.providerKey = key ∧ ∃ f ∈ conn.ftsDoc, f.scopeKey = mi.scopeKey ∧ f.providerKey = key ∧
          conn.ftsIndex.isMatch text f.fields := by
      simp only [ftsRows, OrderBy.mem_run, List.mem_flatMap, List.mem_map, List.mem_filter, decide_eq_true_eq,
        Bool.and_eq_true]
      grind
    simp [selected, IsHit, hm, hbody, hfts, and_or_left, exists_or]

theorem card_hits : Set.ncard {key | IsHit conn account scopeKeys query key} =
    (selected conn account scopeKeys query).flatten.toFinset.card := by
  rw [← Set.ncard_coe_finset]
  congr 1
  ext key
  rw [List.coe_toFinset]
  exact (mem_selected conn account scopeKeys query key).symm

variable {scopeKeys} (limit : Nat)

theorem NamesEachOnce.of_text (hscopes : scopeKeys ≠ []) {text : String} (hm : ftsMatch query.text = some text)
    (h : ∀ rows ∈ selected conn account scopeKeys query, (rows.take limit).Nodup) :
    NamesEachOnce conn account scopeKeys query limit := by
  have hcut : ∀ list ∈ candidates conn account scopeKeys query limit, list.Nodup := by
    rw [candidates]
    exact List.forall_mem_map.mpr h
  have hrun : searchMail conn account scopeKeys query limit =
      (fuse (candidates conn account scopeKeys query limit) defaultK).take limit := by
    simp [searchMail, hscopes, hm]
  have hkeys := fuse_keys defaultK (candidates conn account scopeKeys query limit)
  constructor
  · rw [hrun, List.map_take]
    exact (hkeys.nodup_iff.mpr (List.nodup_dedup _)).sublist (List.take_sublist _ _)
  · intro row hrow
    rw [hrun] at hrow
    have hin := ((mem_fuse _ _ row).mp (List.mem_of_mem_take hrow)).1
    rw [← mem_selected]
    obtain ⟨cut, hcut, hin⟩ := List.mem_flatten.mp hin
    obtain ⟨rows, hrows, rfl⟩ := List.mem_map.mp hcut
    exact List.mem_flatten.mpr ⟨rows, hrows, List.mem_of_mem_take hin⟩
  · have hlen := hkeys.length_eq
    rw [List.length_map, ← List.card_toFinset] at hlen
    rw [hrun, List.length_take, card_hits, ← card_cut h, hlen, candidates]
  · intro _ row hrow
    have hone := (scored_once_iff defaultK _).mpr hcut row hrow
    simpa [once] using hone

theorem searchMail_scalar (hscopes : scopeKeys ≠ []) (hm : ftsMatch query.text = none) :
    (searchMail conn account scopeKeys query limit).map Prod.fst = (scalarRows conn scopeKeys query).take limit := by
  have hid : (Prod.fst ∘ fun key : String => (key, (0 : ℚ))) = id := rfl
  simp [searchMail, hscopes, hm, candidates, selected, List.map_take, hid]

theorem NamesEachOnce.of_scalar (hscopes : scopeKeys ≠ []) (hm : ftsMatch query.text = none)
    (h : ∀ rows ∈ selected conn account scopeKeys query, (rows.take limit).Nodup) :
    NamesEachOnce conn account scopeKeys query limit := by
  have hone : selected conn account scopeKeys query = [scalarRows conn scopeKeys query] := by simp [selected, hm]
  have hrun := searchMail_scalar conn account query limit hscopes hm
  have hnodup := h _ (hone ▸ List.mem_cons_self)
  constructor
  · rw [hrun]
    exact hnodup
  · intro row hrow
    have hin : row.1 ∈ (scalarRows conn scopeKeys query).take limit := hrun ▸ List.mem_map_of_mem hrow
    rw [← mem_selected, hone]
    simpa using List.mem_of_mem_take hin
  · have hlen := congrArg List.length hrun
    rw [List.length_map] at hlen
    rw [hlen, card_hits, ← card_cut h, hone]
    simp [List.toFinset_card_of_nodup hnodup]
  · intro htext
    rw [hm] at htext
    cases htext

end Run

def heldTwice : Connection Unit Unit Unit where
  message := [⟨"inbox", "m1", 0, ()⟩, ⟨"archive", "m1", 0, ()⟩]
  ftsDoc := []
  messageBody := []
  ftsIndex := ⟨fun _ _ => false, fun _ _ => 0⟩
  messageBodyFts := ⟨fun _ _ => false, fun _ _ => 0⟩
  byRank := .stable ℚ
  byDate := .stable (OrderDual Int)

end Search
end SyncEngine
