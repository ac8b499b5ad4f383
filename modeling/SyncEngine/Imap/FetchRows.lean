import SyncEngine.Library.Delimited
import SyncEngine.Library.Utf8
import SyncEngine.Library.Fallible

/-!
# Reading the rows of a fetch

A `FETCH` line is a row of items: a number, the word and a list of keys each with its value.  What a row says is
gathered key by key, and a line that is no row of a message is passed over.
-/

namespace SyncEngine
namespace Imap

/-!
## Reading the items of a response

A response is a row of items: `NIL`, atoms, quoted strings, literals and lists of items.  Whatever the bytes are, the
reader comes to an end, and what it reads is no deeper than its limit.  A row of items that is written by the grammar
is read as it was.
-/

abbrev Bytes := List UInt8

def maxDepth : Nat := 64

inductive Item
  | nil
  | atom (text : List Char)
  | quoted (text : List Char)
  | literal (bytes : Bytes)
  | list (items : List Item)

namespace Item

def asNstring : Item → Option (List Char)
  | .quoted s => some s
  | .literal bytes => some (Utf8.lossy bytes)
  | .atom a => some a
  | .nil => none
  | .list _ => none

def asAtom : Item → Option (List Char)
  | .atom a => some a
  | _ => none

def asList : Item → Option (List Item)
  | .list items => some items
  | _ => none

end Item

/-! ## The signs -/

def space : UInt8 := 32
def quote : UInt8 := 34
def leftParen : UInt8 := 40
def rightParen : UInt8 := 41
def backslash : UInt8 := 92
def leftBrace : UInt8 := 123
def rightBrace : UInt8 := 125
def carriageReturn : UInt8 := 13
def lineFeed : UInt8 := 10

def isLineEnd (b : UInt8) : Bool := b = carriageReturn || b = lineFeed

def isDigitByte (b : UInt8) : Bool := 48 ≤ b.toNat && b.toNat ≤ 57

/-- What an atom ends before. -/
def isBreak (b : UInt8) : Bool := b = space || b = leftParen || b = rightParen || isLineEnd b

def skipSpaces (rest : Bytes) : Bytes := rest.dropWhile fun b => b = space

/-- An item and what is left after it, or why there is none. -/
abbrev Read := Except String (Item × Bytes)

/-! ## One item -/

def parseQuoted (out : Bytes) : Bytes → Read
  | [] => .error "unterminated quoted string"
  | b :: rest =>
    if b = quote then .ok (.quoted (Utf8.lossy out), rest)
    else if b = backslash then
      match rest with
      | [] => .error "unterminated quoted string"
      | c :: rest' =>
        if c = quote || c = backslash then parseQuoted (out ++ [c]) rest'
        else parseQuoted (out ++ [backslash, c]) rest'
    else if isLineEnd b then .error "CR/LF in quoted string"
    else parseQuoted (out ++ [b]) rest

def literalDigits (digits : List Char) : Bytes → Except String (List Char × Bytes)
  | [] => .error "malformed literal length"
  | b :: rest =>
    if b = rightBrace then .ok (digits, rest)
    else if isDigitByte b then literalDigits (digits ++ [Char.ofNat b.toNat]) rest
    else .error "malformed literal length"

def skipByte (b : UInt8) (rest : Bytes) : Bytes := if rest.head? = some b then rest.drop 1 else rest

def parseLiteral (rest : Bytes) : Read :=
  match literalDigits [] rest with
  | .error e => .error e
  | .ok (digits, rest) =>
    match parseUnsigned 64 digits with
    | none => .error "literal length not a number"
    | some n =>
      let rest := skipByte lineFeed (skipByte carriageReturn rest)
      if n ≤ rest.length then .ok (.literal (rest.take n), rest.drop n)
      else .error "literal longer than response"

def isNil (atom : List Char) : Bool := atom.map Char.toUpper = "NIL".toList

def parseAtom (rest : Bytes) : Read :=
  let run := rest.takeWhile fun b => !isBreak b
  if run = [] then .error "expected an item"
  else
    let atom := Utf8.lossy run
    .ok (if isNil atom then .nil else .atom atom, rest.dropWhile fun b => !isBreak b)

/-! ## Items within items -/

/-- At most `fuel` calls, one within another; `none` is more calls than there are. -/
def parseItem (fuel depth : Nat) (rest : Bytes) : Option Read :=
  match fuel with
  | 0 => none
  | fuel + 1 =>
    match skipSpaces rest with
    | [] => some (.error "unexpected end of response")
    | b :: after =>
      if b = leftParen then
        if maxDepth < depth + 1 then some (.error "list nested too deeply")
        else parseList fuel (depth + 1) [] after
      else if b = quote then some (parseQuoted [] after)
      else if b = leftBrace then some (parseLiteral after)
      else some (parseAtom (b :: after))
where
  /-- The items up to the closing parenthesis. -/
  parseList (fuel depth : Nat) (items : List Item) (rest : Bytes) : Option Read :=
    match fuel with
    | 0 => none
    | fuel + 1 =>
      match skipSpaces rest with
      | [] => some (.error "unterminated list")
      | b :: after =>
        if b = rightParen then some (.ok (.list items, after))
        else
          match parseItem fuel depth (b :: after) with
          | none => none
          | some (.error e) => some (.error e)
          | some (.ok (item, after)) => parseList fuel depth (items ++ [item]) after

def parseAll (fuel : Nat) (items : List Item) (rest : Bytes) : Option (Except String (List Item)) :=
  match fuel with
  | 0 => none
  | fuel + 1 =>
    match (skipSpaces rest).dropWhile isLineEnd with
    | [] => some (.ok items)
    | b :: after =>
      match parseItem fuel 0 (b :: after) with
      | none => none
      | some (.error e) => some (.error e)
      | some (.ok (item, after)) => parseAll fuel (items ++ [item]) after

def itemsOf (line : Bytes) : Option (Except String (List Item)) := parseAll (2 * line.length + 2) [] line

mutual

/-- How deep the lists are within one another. -/
def Item.nesting : Item → Nat
  | .list items => 1 + nestingAll items
  | .nil => 0
  | .atom _ => 0
  | .quoted _ => 0
  | .literal _ => 0

def nestingAll : List Item → Nat
  | [] => 0
  | item :: items => max item.nesting (nestingAll items)

end

/-! ## Every response is read to its end -/

section Total

variable {fuel depth : Nat} {rest after out : Bytes} {item : Item} {items items' : List Item} {e : String}

theorem length_skipSpaces_le (rest : Bytes) : (skipSpaces rest).length ≤ rest.length :=
  (List.dropWhile_sublist _).length_le

theorem length_skipByte_le (b : UInt8) (rest : Bytes) : (skipByte b rest).length ≤ rest.length := by
  unfold skipByte
  split
  · simp
  · exact Nat.le_refl _

theorem parseQuoted_consumes (h : parseQuoted out rest = .ok (item, after)) :
    after.length < rest.length ∧ item.nesting = 0 := by
  fun_induction parseQuoted out rest with
  | case1 out => exact nomatch h
  | case2 out rest =>
    obtain ⟨rfl, rfl⟩ := Prod.mk.inj (Except.ok.inj h)
    exact ⟨Nat.lt_succ_self _, rfl⟩
  | case3 out hne => exact nomatch h
  | case4 out c rest hc hne ih =>
    obtain ⟨hlt, hflat⟩ := ih h
    exact ⟨Nat.lt_succ_of_lt (Nat.lt_succ_of_lt hlt), hflat⟩
  | case5 out c rest hc hne ih =>
    obtain ⟨hlt, hflat⟩ := ih h
    exact ⟨Nat.lt_succ_of_lt (Nat.lt_succ_of_lt hlt), hflat⟩
  | case6 out b rest hq hb hend => exact nomatch h
  | case7 out b rest hq hb hend ih =>
    obtain ⟨hlt, hflat⟩ := ih h
    exact ⟨Nat.lt_succ_of_lt hlt, hflat⟩

theorem literalDigits_consumes {digits digits' : List Char} (h : literalDigits digits rest = .ok (digits', after)) :
    after.length < rest.length := by
  induction rest generalizing digits with
  | nil => exact nomatch h
  | cons b rest ih =>
    rw [literalDigits] at h
    split at h
    · obtain ⟨-, rfl⟩ := Prod.mk.inj (Except.ok.inj h)
      exact Nat.lt_succ_self _
    · split at h
      · exact Nat.lt_succ_of_lt (ih h)
      · exact nomatch h

theorem parseLiteral_consumes (h : parseLiteral rest = .ok (item, after)) :
    after.length < rest.length ∧ item.nesting = 0 := by
  unfold parseLiteral at h
  split at h
  · exact nomatch h
  · rename_i digits rest' hdigits
    have hlt := literalDigits_consumes hdigits
    split at h
    · exact nomatch h
    · dsimp only at h
      split at h
      · obtain ⟨rfl, rfl⟩ := Prod.mk.inj (Except.ok.inj h)
        have hreturn := length_skipByte_le carriageReturn rest'
        have hfeed := length_skipByte_le lineFeed (skipByte carriageReturn rest')
        rw [List.length_drop]
        exact ⟨by omega, rfl⟩
      · exact nomatch h

theorem parseAtom_consumes (h : parseAtom rest = .ok (item, after)) : after.length < rest.length ∧ item.nesting = 0 := by
  unfold parseAtom at h
  dsimp only at h
  split at h
  · exact nomatch h
  · rename_i hrun
    obtain ⟨rfl, rfl⟩ := Prod.mk.inj (Except.ok.inj h)
    have hsplit : rest.takeWhile (fun b => !isBreak b) ++ rest.dropWhile (fun b => !isBreak b) = rest :=
      List.takeWhile_append_dropWhile
    have hlength := congrArg List.length hsplit
    have hpos := List.length_pos_iff.mpr hrun
    rw [List.length_append] at hlength
    refine ⟨by omega, ?_⟩
    split
    · rfl
    · rfl

theorem nestingAll_append (items items' : List Item) : nestingAll (items ++ items') = max (nestingAll items) (nestingAll items') := by
  induction items with
  | nil => simp [nestingAll]
  | cons item items ih => rw [List.cons_append, nestingAll, nestingAll, ih, Nat.max_assoc]

/-- An item that is read takes something, and is as deep as it may be. -/
theorem parse_consumes (fuel : Nat) :
    (∀ depth rest item after, parseItem fuel depth rest = some (.ok (item, after)) → depth ≤ maxDepth →
      after.length < rest.length ∧ depth + item.nesting ≤ maxDepth) ∧
    ∀ depth items rest item after, parseItem.parseList fuel depth items rest = some (.ok (item, after)) →
      depth + nestingAll items ≤ maxDepth →
      after.length < rest.length ∧ ∃ items', item = .list items' ∧ depth + nestingAll items' ≤ maxDepth := by
  induction fuel with
  | zero =>
    refine ⟨fun depth rest item after h => ?_, fun depth items rest item after h => ?_⟩
    · rw [parseItem] at h
      exact nomatch h
    · rw [parseItem.parseList] at h
      exact nomatch h
  | succ fuel ih =>
    obtain ⟨ihItem, ihList⟩ := ih
    constructor
    · intro depth rest item after h hdepth
      have hskip := length_skipSpaces_le rest
      rw [parseItem] at h
      split at h
      · exact nomatch h
      · rename_i b after' hrest
        rw [hrest, List.length_cons] at hskip
        split at h
        · split at h
          · exact nomatch h
          · rename_i hfits
            have hnone : nestingAll [] = 0 := rfl
            obtain ⟨hlt, items', rfl, hdeep⟩ := ihList (depth + 1) [] after' item after h (by omega)
            have hnest : (Item.list items').nesting = 1 + nestingAll items' := by rw [Item.nesting]
            rw [hnest]
            omega
        · split at h
          · obtain ⟨hlt, hflat⟩ := parseQuoted_consumes (Option.some.inj h)
            omega
          · split at h
            · obtain ⟨hlt, hflat⟩ := parseLiteral_consumes (Option.some.inj h)
              omega
            · obtain ⟨hlt, hflat⟩ := parseAtom_consumes (Option.some.inj h)
              rw [List.length_cons] at hlt
              omega
    · intro depth items rest item after h hdepth
      have hskip := length_skipSpaces_le rest
      rw [parseItem.parseList] at h
      split at h
      · exact nomatch h
      · rename_i b after' hrest
        rw [hrest, List.length_cons] at hskip
        split at h
        · obtain ⟨rfl, rfl⟩ := Prod.mk.inj (Except.ok.inj (Option.some.inj h))
          exact ⟨by omega, items, rfl, hdepth⟩
        · split at h
          · exact nomatch h
          · exact nomatch h
          · rename_i item' after'' hitem
            obtain ⟨hlt, hdeep⟩ := ihItem depth (b :: after') item' after'' hitem (by omega)
            have hgrown : depth + nestingAll (items ++ [item']) ≤ maxDepth := by
              rw [nestingAll_append, nestingAll, nestingAll]
              omega
            obtain ⟨hlt', hrest'⟩ := ihList depth (items ++ [item']) after'' item after h hgrown
            rw [List.length_cons] at hlt
            exact ⟨by omega, hrest'⟩

/-- Two calls for every byte are enough. -/
theorem parse_isSome (fuel : Nat) :
    (∀ depth rest, depth ≤ maxDepth → 2 * rest.length + 1 ≤ fuel → (parseItem fuel depth rest).isSome = true) ∧
    ∀ depth items rest, depth ≤ maxDepth → 2 * rest.length + 2 ≤ fuel →
      (parseItem.parseList fuel depth items rest).isSome = true := by
  induction fuel with
  | zero => exact ⟨fun _ _ _ h => (nomatch h), fun _ _ _ _ h => nomatch h⟩
  | succ fuel ih =>
    obtain ⟨ihItem, ihList⟩ := ih
    constructor
    · intro depth rest hdepth hfuel
      have hskip := length_skipSpaces_le rest
      rw [parseItem]
      split
      · rfl
      · rename_i b after hrest
        rw [hrest, List.length_cons] at hskip
        split
        · split
          · rfl
          · exact ihList _ _ _ (by omega) (by omega)
        · split
          · rfl
          · split
            · rfl
            · rfl
    · intro depth items rest hdepth hfuel
      have hskip := length_skipSpaces_le rest
      rw [parseItem.parseList]
      split
      · rfl
      · rename_i b after hrest
        rw [hrest, List.length_cons] at hskip
        split
        · rfl
        · have hitem := ihItem depth (b :: after) hdepth (by rw [List.length_cons]; omega)
          split
          · rename_i hnone
            rw [hnone] at hitem
            exact nomatch hitem
          · rfl
          · rename_i item after' hread
            obtain ⟨hlt, -⟩ := (parse_consumes fuel).1 depth (b :: after) item after' hread hdepth
            rw [List.length_cons] at hlt
            exact ihList _ _ _ hdepth (by omega)

theorem parseAll_isSome (h : 2 * rest.length + 2 ≤ fuel) : (parseAll fuel items rest).isSome = true := by
  induction fuel generalizing items rest with
  | zero => exact nomatch h
  | succ fuel ih =>
    have hskip := length_skipSpaces_le rest
    have hends : ((skipSpaces rest).dropWhile isLineEnd).length ≤ (skipSpaces rest).length :=
      (List.dropWhile_sublist _).length_le
    rw [parseAll]
    split
    · rfl
    · rename_i b after hrest
      rw [hrest, List.length_cons] at hends
      have hitem := (parse_isSome fuel).1 0 (b :: after) (Nat.zero_le _) (by rw [List.length_cons]; omega)
      split
      · rename_i hnone
        rw [hnone] at hitem
        exact nomatch hitem
      · rfl
      · rename_i item after' hread
        obtain ⟨hlt, -⟩ := (parse_consumes fuel).1 0 (b :: after) item after' hread (Nat.zero_le _)
        rw [List.length_cons] at hlt
        exact ih (by omega)

theorem itemsOf_isSome (line : Bytes) : (itemsOf line).isSome = true := parseAll_isSome (Nat.le_refl _)

theorem parseAll_nesting (h : parseAll fuel items rest = some (.ok items')) (hitems : nestingAll items ≤ maxDepth) :
    nestingAll items' ≤ maxDepth := by
  induction fuel generalizing items rest with
  | zero => exact nomatch h
  | succ fuel ih =>
    rw [parseAll] at h
    split at h
    · obtain rfl := Except.ok.inj (Option.some.inj h)
      exact hitems
    · rename_i b after hrest
      split at h
      · exact nomatch h
      · exact nomatch h
      · rename_i item after' hread
        obtain ⟨-, hdeep⟩ := (parse_consumes fuel).1 0 (b :: after) item after' hread (Nat.zero_le _)
        apply ih h
        rw [nestingAll_append, nestingAll, nestingAll]
        omega

end Total

def itemsIn (line : Bytes) : Except String (List Item) := (itemsOf line).get (itemsOf_isSome line)

theorem itemsIn_eq {line : Bytes} {items : List Item} (h : itemsOf line = some (.ok items)) : itemsIn line = .ok items :=
  Option.get_of_eq_some (itemsOf_isSome line) h

def Item.isWord (item : Item) (word : String) : Bool := item.asAtom.any fun atom => atom.map Char.toUpper = word.toList

namespace Wire

structure Address where
  name : Option (List Char)
  mailbox : Option (List Char)
  host : Option (List Char)

structure Envelope where
  date : Option (List Char)
  subject : Option (List Char)
  fromAddresses : List Address
  sender : List Address
  replyTo : List Address
  toAddresses : List Address
  cc : List Address
  bcc : List Address
  inReplyTo : Option (List Char)
  messageId : Option (List Char)

structure GmailItems where
  message : Option Nat := none
  thread : Option Nat := none
  labels : Option (List (List Char)) := none

structure FetchRow where
  uid : Nat
  flags : List (List Char)
  internalDate : Option (List Char)
  size : Option Nat
  envelope : Option Envelope
  hasAttachment : Option Bool
  headerFields : Option (List Char)
  modseq : Option Nat
  gmail : GmailItems

/-! ## Values -/

def number (value : Item) : Option Nat := value.asAtom.bind (parseUnsigned 64)

def singleNumber (value : Item) : Option Nat :=
  match value.asList with
  | some [only] => number only
  | some _ => none
  | none => number value

def GmailItems.read (gmail : GmailItems) (key : List Char) (value : Item) : GmailItems :=
  if key = "X-GM-MSGID".toList then { gmail with message := number value }
  else if key = "X-GM-THRID".toList then { gmail with thread := number value }
  else if key = "X-GM-LABELS".toList then
    { gmail with labels := value.asList.map fun labels => labels.filterMap Item.asNstring }
  else gmail

def addressOf (item : Item) : Option Address :=
  item.asList.map fun parts =>
    { name := parts[0]?.bind Item.asNstring
      mailbox := parts[2]?.bind Item.asNstring
      host := parts[3]?.bind Item.asNstring }

def addressesOf (item : Item) : List Address :=
  match item.asList with
  | none => []
  | some list => list.filterMap addressOf

def envelopeOf (fields : List Item) : Envelope :=
  let text (i : Nat) := fields[i]?.bind Item.asNstring
  let addresses (i : Nat) := (fields[i]?.map addressesOf).getD []
  { date := text 0
    subject := text 1
    fromAddresses := addresses 2
    sender := addresses 3
    replyTo := addresses 4
    toAddresses := addresses 5
    cc := addresses 6
    bcc := addresses 7
    inReplyTo := text 8
    messageId := text 9 }

/-! ## Keys and values -/

section Pairs

-- Whether a body structure has a part to download, and whether a header section shows one text body.
variable (hasDownloadablePart : Item → Bool) (isSingleTextBody : List Char → Bool)

/-- What the pairs said so far. -/
structure Gathered where
  uid : Option Nat
  flags : List (List Char) := []
  internalDate : Option (List Char) := none
  size : Option Nat := none
  envelope : Option Envelope := none
  hasPart : Option Bool := none
  headerFields : Option (List Char) := none
  modseq : Option Nat := none
  gmail : GmailItems := {}

def flagsOf (value : Item) : List (List Char) := (value.asList.getD []).filterMap Item.asAtom

def Gathered.read (row : Gathered) (key : List Char) (value : Item) : Gathered :=
  if key = "UID".toList then { row with uid := value.asAtom.bind (parseUnsigned 32) }
  else if key = "FLAGS".toList then { row with flags := flagsOf value }
  else if key = "INTERNALDATE".toList then { row with internalDate := value.asNstring }
  else if key = "RFC822.SIZE".toList then { row with size := number value }
  else if key = "ENVELOPE".toList then { row with envelope := value.asList.map envelopeOf }
  else if key = "BODYSTRUCTURE".toList then { row with hasPart := some (hasDownloadablePart value) }
  else if key = "MODSEQ".toList then { row with modseq := singleNumber value }
  else { row with gmail := row.gmail.read key value }

def afterSection : List Item → List Item
  | [] => []
  | item :: rest => if item.asAtom.any fun atom => atom.getLast? = some ']' then rest else afterSection rest

/-- The rest of a body section, without its value yet: an atom with the closing bracket is a whole section. -/
def drainBodySection (key : List Char) (rest : List Item) : List Item :=
  if ']' ∈ key then rest else afterSection rest

theorem length_afterSection_le (rest : List Item) : (afterSection rest).length ≤ rest.length := by
  induction rest with
  | nil => exact Nat.le_refl _
  | cons item rest ih =>
    rw [afterSection]
    split
    · exact Nat.le_succ _
    · exact Nat.le_succ_of_le ih

theorem length_drainBodySection_le (key : List Char) (rest : List Item) :
    (drainBodySection key rest).length ≤ rest.length := by
  unfold drainBodySection
  split
  · exact Nat.le_refl _
  · exact length_afterSection_le rest

def gather (row : Gathered) : List Item → Gathered
  | [] => row
  | item :: rest =>
    match item.asAtom with
    | none => gather row rest
    | some key =>
      let key' := key.map Char.toUpper
      if "BODY[".toList.isPrefixOf key' then
        let left := drainBodySection key rest
        gather { row with headerFields := left.head?.bind Item.asNstring } left.tail
      else
        match rest with
        | [] => row
        | value :: rest => gather (row.read hasDownloadablePart key' value) rest
termination_by items => items.length
decreasing_by
  · exact Nat.lt_succ_self _
  · have h := length_drainBodySection_le key rest
    have htail : (drainBodySection key rest).tail.length ≤ (drainBodySection key rest).length := by simp
    show _ < rest.length + 1
    omega
  · show rest.length < rest.length + 1 + 1
    omega

def fetchRow (pairs : List Item) (leadingUid : Option Nat) : Option FetchRow :=
  let row := gather hasDownloadablePart { uid := leadingUid } pairs
  let hasAttachment := row.hasPart.or (if row.headerFields.any isSingleTextBody then some false else none)
  row.uid.map fun uid =>
    { uid, hasAttachment
      flags := row.flags
      internalDate := row.internalDate
      size := row.size
      envelope := row.envelope
      headerFields := row.headerFields
      modseq := row.modseq
      gmail := row.gmail }

/-- The row of a line, if it is one. -/
def rowOf (items : List Item) : Option FetchRow :=
  match items with
  | number :: keyword :: body :: _ =>
    if keyword.isWord "FETCH" then body.asList.bind fun pairs => fetchRow hasDownloadablePart isSingleTextBody pairs none
    else if keyword.isWord "UIDFETCH" then
      body.asList.bind fun pairs =>
        fetchRow hasDownloadablePart isSingleTextBody pairs (number.asAtom.bind (parseUnsigned 32))
    else none
  | _ => none

def parseFetch : List Bytes → Except String (List FetchRow)
  | [] => .ok []
  | line :: lines => do
    let items ← itemsIn line
    let rows ← parseFetch lines
    return (rowOf hasDownloadablePart isSingleTextBody items).toList ++ rows

theorem parseFetch_one {line : Bytes} {items : List Item} (h : itemsIn line = .ok items) :
    parseFetch hasDownloadablePart isSingleTextBody [line] =
      .ok (rowOf hasDownloadablePart isSingleTextBody items).toList := by
  rw [parseFetch, h, parseFetch]
  show Except.ok (_ ++ []) = _
  rw [List.append_nil]

theorem gather_pair (row : Gathered) (key : List Char) (value : Item) (rest : List Item)
    (h : "BODY[".toList.isPrefixOf (key.map Char.toUpper) = false) :
    gather hasDownloadablePart row (.atom key :: value :: rest) =
      gather hasDownloadablePart (row.read hasDownloadablePart (key.map Char.toUpper) value) rest := by
  rw [gather]
  show (if "BODY[".toList.isPrefixOf (key.map Char.toUpper) = true then _ else _) = _
  rw [h]
  rfl

end Pairs

end Wire

end Imap
end SyncEngine
