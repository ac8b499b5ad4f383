import Mathlib
import SyncEngine.Imap.Server
import SyncEngine.Mail.Pages

/-!
# Fetching messages

The UID sets a pass names in its commands, and the list-level metadata it reads in two commands:
the second asks for the structure of the messages whose headers leave open whether there is an
attachment.
-/

namespace SyncEngine
namespace Imap

/-!
## The cursor of a mailbox

The UID space and how far into it a pass has read, with the mod-sequence its next delta starts from.
It is opaque to the engine, which stores its text.
-/

open Mail

/-- The version of the sync that writes a cursor.  One of an older version is read as no cursor. -/
def cursorVersion : Nat := 1

structure MailboxCursor where
  uidValidity : Nat
  /-- New arrivals are fetched at or above it. -/
  uidNext : Nat
  highestModseq : Option Nat
  /-- The lowest UID committed by a backfill that is still descending. -/
  backfillLow : Option Nat
  /-- Whether every stored message's flags were read and every message gone from the server removed. -/
  reconciled : Bool
  version : Nat
deriving DecidableEq, Repr

namespace MailboxCursor

def encode (c : MailboxCursor) : SyncState :=
  let suffixed (mark : Char) (n : Option Nat) : List Char :=
    match n with
    | some n => ';' :: mark :: decimal n
    | none => []
  String.ofList ('v' :: decimal c.uidValidity ++ ";n".toList ++ decimal c.uidNext ++
    ";g".toList ++ decimal c.version ++ suffixed 'm' c.highestModseq ++
    (if c.reconciled then ";r".toList else []) ++ suffixed 'b' c.backfillLow)

def splitNumber (mark : Char) (bits : Nat) (text : List Char) :
    Option (List Char × Option Nat) :=
  match splitAtFirst [';', mark] text with
  | some (head, number) => (parseUnsigned bits number).map fun n => (head, some n)
  | none => some (text, none)

def decode (state : SyncState) : Option MailboxCursor := do
  let rest ← stripFront ['v'] state.toList
  let (validity, rest) ← splitAtFirst ";n".toList rest
  let (rest, backfillLow) ← splitNumber 'b' 32 rest
  let reconciled := (stripBack ";r".toList rest).isSome
  let rest := (stripBack ";r".toList rest).getD rest
  let (rest, highestModseq) ← splitNumber 'm' 64 rest
  let (next, version) ← splitNumber 'g' 32 rest
  return {
    uidValidity := ← parseUnsigned 32 validity
    uidNext := ← parseUnsigned 32 next
    highestModseq := highestModseq
    backfillLow := backfillLow
    reconciled := reconciled
    version := version.getD 0 }

/-- The cursor a pass goes on from. -/
def current (state : SyncState) : Option MailboxCursor :=
  (decode state).filter fun c => cursorVersion ≤ c.version

example : decode "v1000;n42;g1;m7;r;b9" = some ⟨1000, 42, some 7, some 9, true, 1⟩ := by decide

example : encode ⟨1000, 500, some 77, some 120, false, 1⟩ = "v1000;n500;g1;m77;b120" := by decide

example : current "v1000;n42;m7;r" = none := by decide

end MailboxCursor

/-! ## Messages -/

/-- An IMAP message's key is its mailbox, the `UIDVALIDITY` and the UID. -/
def messageKey (mailbox : String) (uidValidity uid : Nat) : ProviderKey :=
  String.ofList ("imap:v".toList ++ decimal uidValidity ++ ":u".toList ++ decimal uid ++ '@' ::
    mailbox.toList)

theorem messageKey_injective (mailbox : String) (uidValidity : Nat) :
    Function.Injective (messageKey mailbox uidValidity) := by
  intro a b h
  have hlist := String.ofList_injective h
  rw [List.append_assoc _ (decimal a), List.append_assoc _ (decimal b)] at hlist
  exact decimal_injective (List.append_cancel_right (List.append_cancel_left hlist))

def isKeywordChar (c : Char) : Bool :=
  0x21 ≤ c.toNat && c.toNat ≤ 0x7e && c ∉ ['(', ')', '{', ']', '%', '*', '"', '\\']

def customKeyword (flag : List Char) : Option String :=
  if flag = [] ∨ 255 < flag.length ∨ ¬flag.all isKeywordChar then none
  else some (String.ofList (flag.map Char.toLower))

/-- The keyword of a flag.  Only four of the flags with a backslash have one. -/
def keywordOfFlag (flag : String) : Option String :=
  match flag.toList with
  | '\\' :: name =>
    let name := String.ofList (name.map Char.toLower)
    if name = "seen" then some "$seen"
    else if name = "flagged" then some "$flagged"
    else if name = "answered" then some "$answered"
    else if name = "draft" then some "$draft"
    else none
  | name => customKeyword name

def flagsToKeywords (flags : List String) : Keywords :=
  ((flags.filterMap keywordOfFlag).dedup).insertionSort (· ≤ ·)

variable {δ : Type}

def messageFromFetch (row : FetchRow δ) (mailbox : String) (uidValidity : Nat) :
    Message (Content δ) where
  key := messageKey mailbox uidValidity row.uid
  content := ⟨row.envelope, row.hasAttachment.getD false⟩
  date := row.internalDate.bind InternalDate.instant
  threadId := none
  preview := none
  mailboxes := [mailbox]
  filed := List.cons_ne_nil _ _
  keywords := flagsToKeywords row.flags
  revisions := .none
  lastModified := none

def stateChange (row : FetchRow δ) (mailbox : String) (uidValidity : Nat) : MailStateChange where
  key := messageKey mailbox uidValidity row.uid
  state := ⟨flagsToKeywords row.flags, none, .none, none⟩

example : flagsToKeywords ["\\Seen", "Work", "\\Deleted"] = ["$seen", "work"] := by decide

end Imap

namespace Imap

open Mail

variable {δ : Type}

abbrev Pass (δ : Type) := Dialogue (Request δ) Request.Answer

namespace Pass

def select (condstore : Bool) : Pass δ SelectData := Dialogue.request (Request.select condstore)

def highestUid : Pass δ (List Nat) := Dialogue.request Request.highestUid

def searchSince (floor : CalendarDate) : Pass δ (List Nat) := Dialogue.request (Request.searchSince floor)

def fetch (set : UidSet) : Pass δ (List (FetchRow δ)) := Dialogue.request (Request.fetch set)

def fetchState (set : UidSet) : Pass δ (List (FetchRow δ)) := Dialogue.request (Request.fetchState set)

def fetchStructure (set : UidSet) : Pass δ (List (FetchRow δ)) :=
  Dialogue.request (Request.fetchStructure set)

def changedSince (set : UidSet) (modseq : Nat) : Pass δ (List (FetchRow δ) × List Nat) :=
  Dialogue.request (Request.changedSince set modseq)

def commit (chunk : EmailChunk (Content δ)) : Pass δ Unit := Dialogue.request (Request.commit chunk)

def collect (ask : UidSet → Pass δ (List (FetchRow δ))) : List UidSet → Pass δ (List (FetchRow δ))
  | [] => pure []
  | set :: sets => do
    let rows ← ask set
    let more ← collect ask sets
    return rows ++ more

end Pass

/-! ## UID sets -/

def runsFrom (start stop : Nat) : List Nat → UidSet
  | [] => [.span start stop]
  | uid :: rest =>
    if uid = stop + 1 then runsFrom start uid rest else .span start stop :: runsFrom uid uid rest

def uidSetSpec : List Nat → UidSet
  | [] => []
  | uid :: rest => runsFrom uid uid rest

def ascending (uids : List Nat) : List Nat := uids.insertionSort (· ≤ ·)

def descending (uids : List Nat) : List Nat := uids.insertionSort (· ≥ ·)

def newestFirst (rows : List (FetchRow δ)) : List (FetchRow δ) :=
  rows.insertionSort fun a b => b.uid ≤ a.uid

/-- Contiguous ranges of a width from `windowHigh` down to a floor, at most `fuel` of them, each with
its lowest UID. -/
def rangesDown (lowFloor step : Nat) : Nat → Nat → List (UidSet × Nat)
  | 0, _ => []
  | fuel + 1, windowHigh =>
    let windowLow := max lowFloor (windowHigh - (step - 1))
    ([.span windowLow windowHigh], windowLow) ::
      if windowLow = lowFloor then [] else rangesDown lowFloor step fuel (windowLow - 1)

def fullRangeGroups (high lowFloor fetchBatch : Nat) : List (UidSet × Nat) :=
  if high < lowFloor then []
  else
    let step := if fetchBatch = 0 then high - lowFloor + 1 else min fetchBatch (2 ^ 32 - 1)
    rangesDown lowFloor step (high + 1) high

def listGroups (uidsDesc : List Nat) (fetchBatch : Nat) : List (UidSet × Nat) :=
  let step := if fetchBatch = 0 then max uidsDesc.length 1 else fetchBatch
  (chunks step uidsDesc).map fun chunk =>
    let sorted := ascending chunk
    (uidSetSpec sorted, sorted.headD 0)

/-! ## The attachment flag -/

def structureBatch : Nat := 500

/-- Whether the headers of a solicited row left the attachment flag open. -/
def needsStructure (row : FetchRow δ) : Bool := row.hasAttachment.isNone && row.envelope.isSome

def structureSets (uids : List Nat) (perSet : Nat) : List UidSet :=
  (chunks (max perSet 1) (ascending uids.dedup)).map uidSetSpec

def fetchStructures (session : Negotiated) (uids : List Nat) : Pass δ (List (FetchRow δ)) :=
  Pass.collect Pass.fetchStructure
    (structureSets uids (session.withinMessageLimit structureBatch))

/-- The first open row of a UID with its flag set. -/
def settleRow (rows : List (FetchRow δ)) (answer : FetchRow δ) : List (FetchRow δ) :=
  match answer.hasAttachment, rows with
  | none, rows => rows
  | some _, [] => []
  | some found, row :: rest =>
    if row.uid = answer.uid && needsStructure row then
      { row with hasAttachment := some found } :: rest
    else row :: settleRow rest answer

def settleAttachments (session : Negotiated) (rows : List (FetchRow δ)) :
    Pass δ (List (FetchRow δ)) := do
  let answers ← fetchStructures session ((rows.filter needsStructure).map FetchRow.uid)
  return answers.foldl settleRow rows

def uidFetchMetadata (session : Negotiated) (set : UidSet) : Pass δ (List (FetchRow δ)) := do
  let rows ← Pass.fetch set
  settleAttachments session rows

def takeSettled (s : List (FetchRow δ) × List (FetchRow δ)) (answer : FetchRow δ) :
    List (FetchRow δ) × List (FetchRow δ) :=
  match answer.hasAttachment, s.1.find? (fun row => row.uid = answer.uid) with
  | some found, some row =>
    (s.1.eraseP fun row => row.uid = answer.uid, s.2 ++ [{ row with hasAttachment := some found }])
  | _, _ => s

def settleAcross (session : Negotiated) (opened : List (FetchRow δ)) :
    Pass δ (List (FetchRow δ)) := do
  let answers ← fetchStructures session (opened.map FetchRow.uid)
  return (answers.foldl takeSettled (opened, [])).2

end Imap

namespace Imap

/-!
## Stored positions and keys

A mailbox's cursor and the key of a message are written as text and read back.  Their numbers are decimal and
their marks are not, so every part ends where the next mark begins.
-/

/-! ## Marks between numbers -/

theorem notMem_decimal {c : Char} (h : c.isDigit = false) (n : Nat) : c ∉ decimal n := by
  intro hmem
  have hdigit := isDigits_decimal c hmem
  rw [h] at hdigit
  exact Bool.noConfusion hdigit

namespace MailboxCursor

/-- The counters are as wide as the server's. -/
structure InRange (c : MailboxCursor) : Prop where
  uidValidity : c.uidValidity < 2 ^ 32
  uidNext : c.uidNext < 2 ^ 32
  highestModseq : ∀ n ∈ c.highestModseq, n < 2 ^ 64
  backfillLow : ∀ n ∈ c.backfillLow, n < 2 ^ 32
  version : c.version < 2 ^ 32

/-- A mark and the number after it, where there is one. -/
def suffixed (mark : Char) : Option Nat → List Char
  | some n => ';' :: mark :: decimal n
  | none => []

def reconciledMark (reconciled : Bool) : List Char := if reconciled then ";r".toList else []

variable {mark c : Char} {n : Option Nat}

theorem notMem_suffixed (hdigit : c.isDigit = false) (hmark : c ≠ mark) (hsemi : c ≠ ';') : c ∉ suffixed mark n := by
  cases n with
  | none => exact List.not_mem_nil
  | some n =>
    intro hmem
    rcases List.mem_cons.mp hmem with rfl | hmem
    · exact hsemi rfl
    · rcases List.mem_cons.mp hmem with rfl | hmem
      · exact hmark rfl
      · exact notMem_decimal hdigit n hmem

theorem notMem_reconciledMark {reconciled : Bool} (hmark : c ≠ 'r') (hsemi : c ≠ ';') :
    c ∉ reconciledMark reconciled := by
  cases reconciled with
  | false => exact List.not_mem_nil
  | true =>
    intro hmem
    have hmem : c ∈ [';', 'r'] := hmem
    simp [hmark, hsemi] at hmem

variable {text : List Char}

theorem splitNumber_suffixed {bits : Nat} (hmark : mark ≠ ';') (hbefore : mark ∉ text) (hn : ∀ k ∈ n, k < 2 ^ bits) :
    splitNumber mark bits (text ++ suffixed mark n) = some (text, n) := by
  unfold splitNumber
  cases n with
  | none =>
    have hnone : splitAtFirst [';', mark] (text ++ suffixed mark none) = none := by
      show splitAtFirst [';', mark] (text ++ []) = none
      rw [List.append_nil]
      exact splitAtFirst_pair_none hbefore
    rw [hnone]
    show some (text ++ [], none) = _
    rw [List.append_nil]
  | some n =>
    have hsome : splitAtFirst [';', mark] (text ++ suffixed mark (some n)) = some (text, decimal n) := by
      have hpair := @splitAtFirst_pair Char _ text (decimal n) ';' mark hmark hbefore
      rwa [List.append_assoc] at hpair
    rw [hsome]
    show (parseUnsigned bits (decimal n)).map _ = _
    rw [parseUnsigned_decimal (hn n rfl)]
    rfl

theorem stripBack_reconciledMark (hlast : text.getLast? ≠ some 'r') (reconciled : Bool) :
    (stripBack ";r".toList (text ++ reconciledMark reconciled)).isSome = reconciled ∧
      (stripBack ";r".toList (text ++ reconciledMark reconciled)).getD (text ++ reconciledMark reconciled) = text := by
  cases reconciled with
  | true =>
    have hback : stripBack ";r".toList (text ++ reconciledMark true) = some text := stripBack_append _ _
    rw [hback]
    exact ⟨rfl, rfl⟩
  | false =>
    have hnone : stripBack ";r".toList (text ++ reconciledMark false) = none := by
      show stripBack ";r".toList (text ++ []) = none
      rw [List.append_nil]
      unfold stripBack
      refine if_neg ?_
      rintro ⟨front, rfl⟩
      exact hlast (by rw [show ";r".toList = [';'] ++ ['r'] from rfl, ← List.append_assoc, List.getLast?_concat])
    rw [hnone]
    exact ⟨rfl, List.append_nil _⟩

theorem getLast?_ne_of_notMem (h : c ∉ text) : text.getLast? ≠ some c := by
  intro hlast
  exact h (List.mem_of_getLast? hlast)

theorem encode_toList (c : MailboxCursor) : c.encode.toList =
    'v' :: (decimal c.uidValidity ++ ";n".toList ++ (decimal c.uidNext ++ suffixed 'g' (some c.version) ++
      suffixed 'm' c.highestModseq ++ reconciledMark c.reconciled ++ suffixed 'b' c.backfillLow)) := by
  unfold encode
  rw [String.toList_ofList]
  cases c.highestModseq <;> cases c.backfillLow <;> cases c.reconciled <;>
    simp [suffixed, reconciledMark, List.append_assoc]

theorem decode_encode {c : MailboxCursor} (h : c.InRange) : decode c.encode = some c := by
  have hvalidity : splitAtFirst ";n".toList (decimal c.uidValidity ++ ";n".toList ++ (decimal c.uidNext ++
      suffixed 'g' (some c.version) ++ suffixed 'm' c.highestModseq ++ reconciledMark c.reconciled ++
      suffixed 'b' c.backfillLow)) = some (decimal c.uidValidity, decimal c.uidNext ++
      suffixed 'g' (some c.version) ++ suffixed 'm' c.highestModseq ++ reconciledMark c.reconciled ++
      suffixed 'b' c.backfillLow) :=
    splitAtFirst_append (notMem_decimal (by decide) _)
  have hnumbers : ∀ mark : Char, mark.isDigit = false → mark ≠ 'g' → mark ≠ ';' →
      mark ∉ decimal c.uidNext ++ suffixed 'g' (some c.version) := by
    intro mark hdigit hg hsemi
    rw [List.mem_append, not_or]
    exact ⟨notMem_decimal hdigit _, notMem_suffixed hdigit hg hsemi⟩
  have hcounters : ∀ mark : Char, mark.isDigit = false → mark ≠ 'g' → mark ≠ 'm' → mark ≠ ';' →
      mark ∉ decimal c.uidNext ++ suffixed 'g' (some c.version) ++ suffixed 'm' c.highestModseq := by
    intro mark hdigit hg hm hsemi
    rw [List.mem_append, not_or]
    exact ⟨hnumbers mark hdigit hg hsemi, notMem_suffixed hdigit hm hsemi⟩
  have hlow : splitNumber 'b' 32 (decimal c.uidNext ++ suffixed 'g' (some c.version) ++
      suffixed 'm' c.highestModseq ++ reconciledMark c.reconciled ++ suffixed 'b' c.backfillLow) = some
      (decimal c.uidNext ++ suffixed 'g' (some c.version) ++ suffixed 'm' c.highestModseq ++
        reconciledMark c.reconciled, c.backfillLow) := by
    apply splitNumber_suffixed (by decide) _ h.backfillLow
    rw [List.mem_append, not_or]
    exact ⟨hcounters 'b' (by decide) (by decide) (by decide) (by decide), notMem_reconciledMark (by decide) (by decide)⟩
  obtain ⟨hreconciled, hrest⟩ := stripBack_reconciledMark
    (getLast?_ne_of_notMem (hcounters 'r' (by decide) (by decide) (by decide) (by decide))) c.reconciled
  have hmodseq : splitNumber 'm' 64 (decimal c.uidNext ++ suffixed 'g' (some c.version) ++
      suffixed 'm' c.highestModseq) = some (decimal c.uidNext ++ suffixed 'g' (some c.version), c.highestModseq) :=
    splitNumber_suffixed (by decide) (hnumbers 'm' (by decide) (by decide) (by decide)) h.highestModseq
  have hversion : splitNumber 'g' 32 (decimal c.uidNext ++ suffixed 'g' (some c.version)) =
      some (decimal c.uidNext, some c.version) :=
    splitNumber_suffixed (by decide) (notMem_decimal (by decide) _) fun k hk => by
      rw [← Option.some.inj hk]
      exact h.version
  have hfront : ∀ text, stripFront ['v'] ('v' :: text) = some text := fun _ => stripFront_eq_some_iff.mpr rfl
  unfold decode
  rw [encode_toList, hfront]
  simp only [Option.bind_eq_bind, Option.bind_some, hvalidity, hlow, hreconciled, hrest, hmodseq, hversion,
    parseUnsigned_decimal h.uidValidity, parseUnsigned_decimal h.uidNext, Option.getD_some, Option.pure_def]

end MailboxCursor

/-! ## Keys -/

/-- A mailbox goes by its id, and no id is empty. -/
structure MailboxName where
  name : String
  nonempty : name ≠ ""

/-- The mailbox, the `UIDVALIDITY` and the UID of a key. -/
def parseMessageKey (key : ProviderKey) : Option (String × Nat × Nat) := do
  let rest ← stripFront "imap:v".toList key.toList
  let (validity, rest) ← splitAtFirst ":u".toList rest
  let (uid, mailbox) ← splitAtFirst ['@'] rest
  if mailbox = [] then none
  else return (String.ofList mailbox, ← parseUnsigned 32 validity, ← parseUnsigned 32 uid)

theorem messageKey_toList (mailbox : String) (uidValidity uid : Nat) : (messageKey mailbox uidValidity uid).toList =
    "imap:v".toList ++ (decimal uidValidity ++ ":u".toList ++ (decimal uid ++ '@' :: mailbox.toList)) := by
  unfold messageKey
  rw [String.toList_ofList]
  simp only [List.append_assoc]

variable {mailbox : String} {uidValidity uid : Nat}

theorem parseMessageKey_messageKey (hmailbox : mailbox ≠ "") (hvalidity : uidValidity < 2 ^ 32) (huid : uid < 2 ^ 32) :
    parseMessageKey (messageKey mailbox uidValidity uid) = some (mailbox, uidValidity, uid) := by
  have hsplit : splitAtFirst ":u".toList (decimal uidValidity ++ ":u".toList ++ (decimal uid ++ '@' :: mailbox.toList)) =
      some (decimal uidValidity, decimal uid ++ '@' :: mailbox.toList) :=
    splitAtFirst_append (notMem_decimal (by decide) _)
  have hat : splitAtFirst ['@'] (decimal uid ++ '@' :: mailbox.toList) = some (decimal uid, mailbox.toList) := by
    rw [splitAtFirst_eq_some_iff]
    refine ⟨rfl, ?_⟩
    rintro d hd rfl
    exact notMem_decimal (by decide) uid hd
  have hne : mailbox.toList ≠ [] := fun hnil => hmailbox (String.toList_eq_nil_iff.mp hnil)
  unfold parseMessageKey
  rw [messageKey_toList, stripFront_eq_some_iff.mpr rfl]
  simp only [Option.bind_eq_bind, Option.bind_some, hsplit, hat, if_neg hne, parseUnsigned_decimal hvalidity,
    parseUnsigned_decimal huid, String.ofList_toList, Option.pure_def]

theorem messageKey_inj {mailbox' : String} {uidValidity' uid' : Nat}
    (h : messageKey mailbox uidValidity uid = messageKey mailbox' uidValidity' uid') :
    mailbox = mailbox' ∧ uidValidity = uidValidity' ∧ uid = uid' := by
  have htext := congrArg String.toList h
  rw [messageKey_toList, messageKey_toList] at htext
  have hrest := List.append_cancel_left htext
  rw [List.append_assoc, List.append_assoc] at hrest
  obtain ⟨hvalidity, hrest⟩ := cut_at_first hrest (notMem_decimal (by decide) _) (notMem_decimal (by decide) _)
  obtain ⟨huid, hmailbox⟩ := cut_at_first (List.cons.inj hrest).2 (notMem_decimal (by decide) _)
    (notMem_decimal (by decide) _)
  exact ⟨String.toList_injective hmailbox, decimal_injective hvalidity, decimal_injective huid⟩

end Imap
end SyncEngine
