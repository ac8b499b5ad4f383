import SyncEngine.Imap.Fetch
import SyncEngine.Library.Fallible

/-!
# Saving a draft again

A draft is saved by an `APPEND` of its new text, and the copy before it is then marked and expunged.  A key made
where the server told no UID names that copy by its `Message-ID`, which the new copy has too.
-/

namespace SyncEngine
namespace Filing
namespace Drafts

open Imap (messageKey parseMessageKey)
open Fallible (bind_eq_ok)

structure Copy where
  uid : Nat
  messageId : String
  text : List UInt8
  deleted : Bool
deriving DecidableEq

structure Mailbox where
  uidValidity : Nat
  uidNext : Nat
  copies : List Copy

abbrev Folders := String → Mailbox

/-- A command that fails: before it did anything, or with only its answer lost. -/
inductive Fault
  | refused (e : ProviderError)
  | lost (e : ProviderError)

/-- The commands of a save: two to store the new text, the others to remove the copy before it. -/
inductive Command
  | list
  | append
  | listAgain
  | select
  | search
  | store
  | expunge

/-- The server: what it tells of an `APPEND`, the folder with the Drafts role, the folder of that name in the store,
what a search of the `Message-ID` header finds, and how each command fails. -/
structure Server where
  uidPlus : Bool
  role : Option String
  fallback : String
  found : String → String → Bool
  faults : Command → Option Fault

namespace Server

variable (server : Server)

/-- A command that is only its answer. -/
def query {α : Type} (command : Command) (answer : α) : Except ProviderError α :=
  match server.faults command with
  | none => .ok answer
  | some (.refused e) => .error e
  | some (.lost e) => .error e

/-- A folder is given other copies. -/
def changed (folder : String) (change : Mailbox → Mailbox) (m : Folders) : Folders :=
  Function.update m folder (change (m folder))

def appended (messageId : String) (text : List UInt8) (m : Mailbox) : Mailbox :=
  { m with uidNext := m.uidNext + 1, copies := m.copies ++ [⟨m.uidNext, messageId, text, false⟩] }

/-- `+FLAGS.SILENT (\Deleted)` for one UID. -/
def marked (uid : Nat) (m : Mailbox) : Mailbox :=
  { m with copies := m.copies.map fun c => if c.uid = uid then { c with deleted := true } else c }

def expunged (uid : Nat) (m : Mailbox) : Mailbox :=
  { m with copies := m.copies.filter fun c => !(c.uid = uid && c.deleted) }

/-! ## The source -/

/-- Where no folder has the role, one is made; that this fails is let go. -/
def resolveFilingFolder (command : Command) : Except ProviderError String := do
  match ← server.query command server.role with
  | some name => return name
  | none => return server.fallback

def findPlacedCopy (folder messageId : String) (m : Folders) : Except ProviderError (Option (Nat × Nat)) := do
  let uidValidity ← server.query .select (m folder).uidValidity
  let uids ← server.query .search
    (((m folder).copies.filter fun c => server.found c.messageId messageId).map Copy.uid)
  return uids.max?.map fun uid => (uidValidity, uid)

def rejectControlChars (name : String) : Except ProviderError Unit :=
  if name.toList.any fun c => c = '\r' || c = '\n' || c = '\x00' then
    throw ⟨.invalidState, "mailbox name contains a control character", false⟩
  else return

def selectTarget (key : ProviderKey) (m : Folders) : Except ProviderError (String × Nat) := do
  match parseMessageKey key with
  | none => throw ⟨.invalidState, "unparseable IMAP message key: " ++ key, false⟩
  | some (mailbox, keyValidity, uid) =>
    rejectControlChars mailbox
    let uidValidity ← server.query .select (m mailbox).uidValidity
    if uidValidity = keyValidity then return (mailbox, uid)
    else throw ⟨.conflict, "UIDVALIDITY changed for " ++ mailbox ++ ": re-sync before retrying", false⟩

end Server

/-- A `Message-ID` is not empty and of at most 998 octets. -/
def messageIdHeader (id : List Char) : Option String :=
  if id = [] ∨ 998 < Utf8.size id then none else some (String.ofList id)

/-- The `Message-ID` in a key that was made without a UID. -/
def unplacedMessageId (key : ProviderKey) : Option String :=
  (stripFront "draft:".toList key.toList).bind messageIdHeader

def placedKey (folder : String) (appendUid : Option (Nat × Nat)) (messageId : String) : ProviderKey :=
  match appendUid with
  | some (validity, uid) => messageKey folder validity uid
  | none => String.ofList ("draft:".toList ++ messageId.toList)

namespace Server

variable (server : Server)

/-- The copy a removal is to take, with its folder. -/
def superseded (key : ProviderKey) (m : Folders) : Except ProviderError (Option (String × Nat)) :=
  match unplacedMessageId key with
  | some messageId => do
    let folder ← server.resolveFilingFolder .listAgain
    return (← server.findPlacedCopy folder messageId m).map fun (_, uid) => (folder, uid)
  | none => some <$> server.selectTarget key m

/-- The folders after a command, which `done` are where it was carried out. -/
def after (command : Command) (done m : Folders) : Folders :=
  match server.faults command with
  | some (.refused _) => m
  | _ => done

def marks (folder : String) (uid : Nat) (m : Folders) : Folders :=
  server.after .store (changed folder (marked uid) m) m

/-- Marks a copy, and expunges it where the mark was answered. -/
def drop (folder : String) (uid : Nat) (m : Folders) : Folders :=
  match server.faults .store with
  | none => server.after .expunge (changed folder (expunged uid) (server.marks folder uid m)) (server.marks folder uid m)
  | some _ => server.marks folder uid m

def remove (key : ProviderKey) (m : Folders) : Folders :=
  match server.superseded key m with
  | .ok (some (folder, uid)) => server.drop folder uid m
  | _ => m

def putDraft (messageId : String) (message : Except ProviderError (List UInt8)) (replacing : Option ProviderKey)
    (m : Folders) : Except ProviderError ProviderKey × Folders :=
  match (do return (← message, ← server.resolveFilingFolder .list)) with
  | .error e => (.error e, m)
  | .ok (text, folder) =>
    let stored := changed folder (appended messageId text) m
    match server.faults .append with
    | some (.refused e) => (.error e, m)
    | some (.lost e) => (.error e, stored)
    | none =>
      let appendUid := if server.uidPlus then some ((m folder).uidValidity, (m folder).uidNext) else none
      (.ok (placedKey folder appendUid messageId), match replacing with
        | none => stored
        | some superseded => server.remove superseded stored)

end Server

/-! ## What a removal leaves -/

namespace Server

variable {server : Server} {m : Folders} {folder f messageId : String} {uid : Nat} {c : Copy} {key : ProviderKey}

theorem changed_same (change : Mailbox → Mailbox) : changed folder change m folder = change (m folder) :=
  Function.update_self ..

theorem changed_kept {change : Mailbox → Mailbox} (hc : c ∈ (m f).copies)
    (h : f = folder → c ∈ (change (m f)).copies) : c ∈ (changed folder change m f).copies := by
  by_cases hf : f = folder
  · subst hf
    rw [changed_same]
    exact h rfl
  · rw [changed, Function.update_of_ne hf]
    exact hc

theorem after_cases (command : Command) (done m : Folders) :
    server.after command done m = done ∨ server.after command done m = m := by
  unfold after
  split
  · exact .inr rfl
  · exact .inl rfl

theorem drop_cases : server.drop folder uid m = server.marks folder uid m ∨
    server.drop folder uid m = changed folder (expunged uid) (server.marks folder uid m) := by
  unfold drop
  cases server.faults .store with
  | none => exact (server.after_cases .expunge _ _).symm
  | some fault => exact .inl rfl

theorem drop_kept (hc : c ∈ (m f).copies) (hne : f = folder → c.uid ≠ uid) : c ∈ (server.drop folder uid m f).copies := by
  have hmarks : c ∈ (server.marks folder uid m f).copies := by
    rcases server.after_cases .store (changed folder (marked uid) m) m with h | h
    · rw [marks, h]
      exact changed_kept hc fun hf => List.mem_map.mpr ⟨c, hc, if_neg (hne hf)⟩
    · rw [marks, h]
      exact hc
  rcases server.drop_cases with h | h
  · rw [h]
    exact hmarks
  · rw [h]
    exact changed_kept hmarks fun hf => List.mem_filter.mpr ⟨hmarks, by simp [hne hf]⟩

theorem drop_taken (hstore : ∀ e, server.faults .store ≠ some (.refused e))
    (hc : c ∈ (server.drop folder uid m folder).copies) (huid : c.uid = uid) : c.deleted = true := by
  have hmarks : ∀ c ∈ (server.marks folder uid m folder).copies, c.uid = uid → c.deleted = true := by
    have hmarked : server.marks folder uid m = changed folder (marked uid) m := by
      unfold marks after
      split
      · next e he => exact absurd he (hstore e)
      · rfl
    rw [hmarked, changed_same]
    intro c hc hcuid
    obtain ⟨c', -, rfl⟩ := List.mem_map.mp hc
    by_cases hc' : c'.uid = uid
    · rw [if_pos hc']
    · rw [if_neg hc'] at hcuid
      exact absurd hcuid hc'
  rcases server.drop_cases with h | h
  · rw [h] at hc
    exact hmarks c hc huid
  · rw [h, changed_same] at hc
    exact hmarks c (List.mem_filter.mp hc).1 huid

variable (server) in
def draftsFolder : String := server.role.getD server.fallback

variable (server) in
/-- Whether a removal by a `Message-ID` gets as far as marking what it finds. -/
def Reaches : Prop :=
  server.faults .listAgain = none ∧ server.faults .select = none ∧ server.faults .search = none ∧
    ∀ e, server.faults .store ≠ some (.refused e)

/-- What a removal by a `Message-ID` takes: the last copy that is found, unless a command before fails. -/
theorem superseded_unplaced (hkey : unplacedMessageId key = some messageId) :
    (server.faults .listAgain = none ∧ server.faults .select = none ∧ server.faults .search = none ∧
      server.superseded key m = .ok ((((m server.draftsFolder).copies.filter fun c =>
        server.found c.messageId messageId).map Copy.uid).max?.map fun uid => (server.draftsFolder, uid))) ∨
      ¬server.Reaches ∧ ∃ e, server.superseded key m = .error e := by
  unfold superseded resolveFilingFolder findPlacedCopy query draftsFolder
  rw [hkey]
  cases hlist : server.faults .listAgain with
  | some fault => cases fault <;> exact .inr ⟨fun h => (nomatch hlist.symm.trans h.1), _, rfl⟩
  | none =>
    cases hselect : server.faults .select with
    | some fault =>
      cases fault <;> cases server.role <;> exact .inr ⟨fun h => (nomatch hselect.symm.trans h.2.1), _, rfl⟩
    | none =>
      cases hsearch : server.faults .search with
      | some fault =>
        cases fault <;> cases server.role <;> exact .inr ⟨fun h => (nomatch hsearch.symm.trans h.2.2.1), _, rfl⟩
      | none =>
        left
        cases server.role with
        | none => exact ⟨rfl, rfl, rfl, congrArg Except.ok (Option.map_map ..)⟩
        | some name => exact ⟨rfl, rfl, rfl, congrArg Except.ok (Option.map_map ..)⟩

theorem query_eq_ok {α : Type} {command : Command} {answer a : α} (h : server.query command answer = .ok a) :
    answer = a := by
  unfold query at h
  split at h
  · exact Except.ok.inj h
  · exact nomatch h
  · exact nomatch h

theorem superseded_placed {uidValidity : Nat} {place : String × Nat} (hkey : unplacedMessageId key = none)
    (hparse : parseMessageKey key = some (folder, uidValidity, uid))
    (h : server.superseded key m = .ok (some place)) :
    place = (folder, uid) ∧ (m folder).uidValidity = uidValidity := by
  unfold superseded at h
  rw [hkey] at h
  cases htarget : server.selectTarget key m with
  | error e =>
    rw [htarget] at h
    exact nomatch h
  | ok target =>
    rw [htarget] at h
    obtain rfl : target = place := Option.some.inj (Except.ok.inj h)
    unfold selectTarget at htarget
    rw [hparse] at htarget
    obtain ⟨_, -, htarget⟩ := bind_eq_ok.mp htarget
    obtain ⟨validity, hselect, htarget⟩ := bind_eq_ok.mp htarget
    split at htarget
    · next hsame => exact ⟨(Except.ok.inj htarget).symm, (query_eq_ok hselect).trans hsame⟩
    · exact nomatch htarget

end Server

/-! ## What a save leaves -/

section Save

variable {server : Server} {m m' : Folders} {messageId : String} {text : List UInt8} {replacing : Option ProviderKey}
  {key : ProviderKey} {f : String} {c : Copy}

/-- UIDs are below the next one, and both are numbers of 32 bits.  No folder is without a name. -/
structure Valid (server : Server) (m : Folders) : Prop where
  below : ∀ f, ∀ c ∈ (m f).copies, c.uid < (m f).uidNext
  uidNext : ∀ f, (m f).uidNext < 2 ^ 32
  uidValidity : ∀ f, (m f).uidValidity < 2 ^ 32
  named : server.draftsFolder ≠ ""

/-- The folders with the copy that an `APPEND` makes. -/
def Server.stored (server : Server) (messageId : String) (text : List UInt8) (m : Folders) : Folders :=
  Server.changed server.draftsFolder (Server.appended messageId text) m

theorem putDraft_ok (h : server.putDraft messageId (.ok text) replacing m = (.ok key, m')) :
    (key = placedKey server.draftsFolder none messageId ∨ key =
      messageKey server.draftsFolder (m server.draftsFolder).uidValidity (m server.draftsFolder).uidNext) ∧
    m' = replacing.elim (server.stored messageId text m) fun superseded =>
      server.remove superseded (server.stored messageId text m) := by
  have hresolve : server.resolveFilingFolder .list = .ok server.draftsFolder ∨
      ∃ e, server.resolveFilingFolder .list = .error e := by
    unfold Server.resolveFilingFolder Server.query Server.draftsFolder
    cases server.faults .list with
    | none => cases server.role <;> exact .inl rfl
    | some fault => cases fault <;> exact .inr ⟨_, rfl⟩
  unfold Server.putDraft at h
  rcases hresolve with hfolder | ⟨e, he⟩
  · rw [hfolder] at h
    dsimp only [bind, Except.bind, pure, Except.pure] at h
    split at h
    · exact nomatch (Prod.mk.inj h).1
    · exact nomatch (Prod.mk.inj h).1
    · obtain ⟨hkey, hstate⟩ := Prod.mk.inj h
      refine ⟨?_, ?_⟩
      · rw [← Except.ok.inj hkey]
        by_cases hplus : server.uidPlus
        · rw [if_pos hplus]
          exact .inr rfl
        · rw [if_neg hplus]
          exact .inl rfl
      · rw [← hstate]
        cases replacing <;> rfl
  · rw [he] at h
    exact nomatch (Prod.mk.inj h).1

/-- The UIDs given out under a `UIDVALIDITY` are not given out again. -/
def Later (m m' : Folders) : Prop :=
  ∀ f, (m' f).uidValidity = (m f).uidValidity → (m f).uidNext ≤ (m' f).uidNext

def Returned (messageId : String) (m : Folders) (key : ProviderKey) : Prop :=
  ∃ (server : Server) (m₀ m₁ : Folders) (text : List UInt8) (replacing : Option ProviderKey), Valid server m₀ ∧
    server.putDraft messageId (.ok text) replacing m₀ = (.ok key, m₁) ∧ Later (server.stored messageId text m₀) m

/-- The copy that a key stands for: the one with its UID, or one saved under the `Message-ID` before. -/
def Superseded (m : Folders) (messageId : String) (replacing : Option ProviderKey) (f : String) (c : Copy) : Prop :=
  c ∈ (m f).copies ∧ ∃ key, replacing = some key ∧
    (key = messageKey f (m f).uidValidity c.uid ∨ unplacedMessageId key ≠ none ∧ c.messageId = messageId)

/-- The new text is saved, and nothing but the copy before it is marked or gone. -/
structure Kept (server : Server) (m m' : Folders) (messageId : String) (text : List UInt8)
    (replacing : Option ProviderKey) : Prop where
  saved : ∃ c ∈ (m' server.draftsFolder).copies, c.text = text ∧ c.deleted = false
  others : ∀ f, ∀ c ∈ (server.stored messageId text m f).copies,
    ¬Superseded m messageId replacing f c → c ∈ (m' f).copies

theorem stored_uidValidity (f : String) : (server.stored messageId text m f).uidValidity = (m f).uidValidity := by
  unfold Server.stored Server.changed
  by_cases hf : f = server.draftsFolder
  · subst hf
    rw [Function.update_self]
    rfl
  · rw [Function.update_of_ne hf]

theorem stored_drafts : server.stored messageId text m server.draftsFolder =
    Server.appended messageId text (m server.draftsFolder) :=
  Server.changed_same _

theorem fresh_mem : ⟨(m server.draftsFolder).uidNext, messageId, text, false⟩ ∈
    (server.stored messageId text m server.draftsFolder).copies := by
  rw [stored_drafts]
  exact List.mem_append_right _ List.mem_cons_self

theorem stored_cases (hc : c ∈ (server.stored messageId text m f).copies) : c ∈ (m f).copies ∨
    f = server.draftsFolder ∧ c = ⟨(m server.draftsFolder).uidNext, messageId, text, false⟩ := by
  by_cases hf : f = server.draftsFolder
  · subst hf
    rw [stored_drafts] at hc
    rcases List.mem_append.mp hc with hc | hc
    · exact .inl hc
    · exact .inr ⟨rfl, List.mem_singleton.mp hc⟩
  · unfold Server.stored Server.changed at hc
    rw [Function.update_of_ne hf] at hc
    exact .inl hc

theorem Returned.shape (hid : messageIdHeader messageId.toList = some messageId) (h : Returned messageId m key) :
    unplacedMessageId key = some messageId ∨
      unplacedMessageId key = none ∧ ∃ f v uid, key = messageKey f v uid ∧ parseMessageKey key = some (f, v, uid) ∧
        ((m f).uidValidity = v → uid < (m f).uidNext) := by
  obtain ⟨server, m₀, m₁, text, replacing, hvalid, hput, hlater⟩ := h
  rcases (putDraft_ok hput).1 with rfl | rfl
  · left
    have htext : (placedKey server.draftsFolder none messageId).toList = "draft:".toList ++ messageId.toList :=
      String.toList_ofList
    unfold unplacedMessageId
    rw [htext, stripFront_eq_some_iff.mpr rfl]
    exact hid
  · right
    constructor
    · unfold unplacedMessageId
      rw [Imap.messageKey_toList]
      rfl
    · refine ⟨_, _, _, rfl, Imap.parseMessageKey_messageKey hvalid.named (hvalid.uidValidity _) (hvalid.uidNext _), ?_⟩
      intro hv
      have hnext := hlater server.draftsFolder (by rw [stored_uidValidity]; exact hv)
      rw [stored_drafts] at hnext
      have hgiven : (Server.appended messageId text (m₀ server.draftsFolder)).uidNext =
          (m₀ server.draftsFolder).uidNext + 1 := rfl
      omega

theorem last_found (hvalid : Valid server m) (hfound : server.found messageId messageId = true) :
    (((server.stored messageId text m server.draftsFolder).copies.filter fun c =>
      server.found c.messageId messageId).map Copy.uid).max? = some (m server.draftsFolder).uidNext := by
  rw [List.max?_eq_some_iff]
  constructor
  · exact List.mem_map.mpr ⟨_, List.mem_filter.mpr ⟨fresh_mem, hfound⟩, rfl⟩
  · intro uid huid
    obtain ⟨c, hc, rfl⟩ := List.mem_map.mp huid
    rcases stored_cases (List.mem_filter.mp hc).1 with hc | ⟨-, rfl⟩
    · exact (hvalid.below _ c hc).le
    · exact le_refl _

theorem Kept.of_stored (h : m' = server.stored messageId text m) : Kept server m m' messageId text replacing := by
  subst h
  exact ⟨⟨_, fresh_mem, rfl, rfl⟩, fun f c hc _ => hc⟩

theorem Kept.of_placed {v uid : Nat} {folder : String} (hplaced : unplacedMessageId key = none)
    (hkey : key = messageKey folder v uid) (hparse : parseMessageKey key = some (folder, v, uid))
    (hgiven : (m folder).uidValidity = v → uid < (m folder).uidNext) :
    Kept server m (server.remove key (server.stored messageId text m)) messageId text (some key) := by
  have hkept : ∀ f, ∀ c ∈ (server.stored messageId text m f).copies, (f = folder → (m f).uidValidity = v → c.uid ≠ uid) →
      c ∈ (server.remove key (server.stored messageId text m) f).copies := by
    intro f c hc hne
    unfold Server.remove
    cases hsuperseded : server.superseded key (server.stored messageId text m) with
    | error e => exact hc
    | ok place =>
      cases place with
      | none => exact hc
      | some place =>
        obtain ⟨rfl, hv⟩ := Server.superseded_placed hplaced hparse hsuperseded
        rw [stored_uidValidity] at hv
        exact Server.drop_kept hc fun hf => hne hf (hf ▸ hv)
  refine ⟨⟨_, hkept _ _ fresh_mem ?_, rfl, rfl⟩, fun f c hc hnot => hkept f c hc ?_⟩
  · rintro rfl hv huid
    exact absurd (hgiven hv) (huid ▸ Nat.lt_irrefl _)
  · rintro rfl hv rfl
    rcases stored_cases hc with hc | ⟨rfl, rfl⟩
    · exact hnot ⟨hc, _, rfl, .inl (hv ▸ hkey)⟩
    · exact absurd (hgiven hv) (Nat.lt_irrefl _)

/-- A save keeps the new text and every other message, unless the draft was saved without a UID before and its
removal gets as far as marking what it finds. -/
theorem saved_draft_kept_iff (hvalid : Valid server m) (hid : messageIdHeader messageId.toList = some messageId)
    (hfound : server.found messageId messageId = true) (hreplacing : ∀ k ∈ replacing, Returned messageId m k)
    (hput : server.putDraft messageId (.ok text) replacing m = (.ok key, m')) :
    Kept server m m' messageId text replacing ↔ ∀ k ∈ replacing, unplacedMessageId k ≠ none → ¬server.Reaches := by
  have hstate := (putDraft_ok hput).2
  cases replacing with
  | none => exact ⟨fun _ k hk => (nomatch hk), fun _ => .of_stored hstate⟩
  | some superseded =>
    change m' = server.remove superseded _ at hstate
    rcases (hreplacing superseded rfl).shape hid with hunplaced | ⟨hplaced, f₀, v, uid, hkey, hparse, hgiven⟩
    · have hsome : unplacedMessageId superseded ≠ none := hunplaced ▸ Option.some_ne_none _
      rcases @Server.superseded_unplaced server (server.stored messageId text m) _ _ hunplaced with
        ⟨hlist, hselect, hsearch, hlast⟩ | ⟨hnot, e, he⟩
      · rw [last_found hvalid hfound, Option.map_some] at hlast
        rw [Server.remove, hlast] at hstate
        constructor
        · intro hkept k hk _ hreaches
          have hfresh := hkept.others server.draftsFolder _ fresh_mem fun h =>
            absurd (hvalid.below _ _ h.1) (Nat.lt_irrefl _)
          rw [hstate] at hfresh
          exact nomatch Server.drop_taken hreaches.2.2.2 hfresh rfl
        · intro h
          have hrefused : ∃ e, server.faults .store = some (.refused e) := by
            by_contra hnone
            exact h superseded rfl hsome ⟨hlist, hselect, hsearch, fun e he => hnone ⟨e, he⟩⟩
          obtain ⟨e, he⟩ := hrefused
          refine .of_stored (hstate.trans ?_)
          show server.drop _ _ _ = _
          unfold Server.drop Server.marks Server.after
          rw [he]
      · rw [Server.remove, he] at hstate
        exact ⟨fun _ k hk _ => hnot, fun _ => .of_stored hstate⟩
    · subst hstate
      refine ⟨fun _ k hk h => ?_, fun _ => .of_placed hplaced hkey hparse hgiven⟩
      exact absurd (Option.some.inj hk ▸ hplaced) h

end Save

namespace Sample

def server (uidPlus : Bool) : Server := ⟨uidPlus, some "Drafts", "Drafts", fun a b => a = b, fun _ => none⟩

def start : Folders := fun _ => ⟨70, 4, []⟩

/-- The draft saved once. -/
def saved (uidPlus : Bool) : Folders := (server uidPlus).stored "m@x" [1] start

def key (uidPlus : Bool) (uid : Nat) : ProviderKey :=
  placedKey "Drafts" (if uidPlus then some (70, uid) else none) "m@x"

theorem valid_start (uidPlus : Bool) : Valid (server uidPlus) start :=
  ⟨fun _ _ hc => (nomatch hc), fun _ => (by decide : 4 < 2 ^ 32), fun _ => (by decide : 70 < 2 ^ 32),
    (by decide : "Drafts" ≠ "")⟩

theorem valid_saved : Valid (server true) (saved true) where
  below f c hc := by
    rcases stored_cases hc with hc | ⟨hf, hc⟩
    · exact nomatch hc
    · rw [hf, hc]
      decide
  uidNext f := by
    by_cases hf : f = (server true).draftsFolder
    · rw [hf]
      decide
    · rw [saved, Server.stored, Server.changed, Function.update_of_ne hf]
      exact (by decide : 4 < 2 ^ 32)
  uidValidity f := by
    rw [saved, stored_uidValidity]
    exact (by decide : 70 < 2 ^ 32)
  named := (by decide : "Drafts" ≠ "")

theorem returned (uidPlus : Bool) : Returned "m@x" (saved uidPlus) (key uidPlus 4) :=
  ⟨server uidPlus, start, saved uidPlus, [1], none, valid_start uidPlus, by cases uidPlus <;> rfl, fun _ _ => le_refl _⟩

/-- The folders when the draft is saved again. -/
def again (uidPlus : Bool) : Folders :=
  ((server uidPlus).putDraft "m@x" (.ok [2]) (some (key uidPlus 4)) (saved uidPlus)).2

end Sample

open Drafts.Sample in
theorem saved_draft_kept_iff_withUid : Kept (server true) (saved true) (again true) "m@x" [2] (some (key true 4)) := by
  have hput : (server true).putDraft "m@x" (.ok [2]) (some (key true 4)) (saved true) = (.ok (key true 5), again true) :=
    rfl
  have hreturned : ∀ k ∈ some (key true 4), Returned "m@x" (saved true) k :=
    fun k hk => Option.some.inj hk ▸ returned true
  refine (saved_draft_kept_iff valid_saved (by decide) (by decide) hreturned hput).mpr ?_
  intro k hk hunplaced
  rw [← Option.some.inj hk] at hunplaced
  exact absurd (by decide) hunplaced

open Drafts.Sample in
/-- Saved again without a UID, the draft has its old text and no other. -/
theorem saved_draft_loses_text : Returned "m@x" (saved false) (key false 4) ∧
    ¬Kept (server false) (saved false) (again false) "m@x" [2] (some (key false 4)) := by
  refine ⟨returned false, fun hkept => ?_⟩
  obtain ⟨c, hc, htext, -⟩ := hkept.saved
  have hcopies : (again false "Drafts").copies = [⟨4, "m@x", [1], false⟩] := by decide
  have hdrafts : (server false).draftsFolder = "Drafts" := rfl
  rw [hdrafts, hcopies] at hc
  rw [List.mem_singleton.mp hc] at htext
  exact absurd htext (by decide)

end Drafts
end Filing
end SyncEngine
