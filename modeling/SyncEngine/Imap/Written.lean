import SyncEngine.Imap.FetchRows
import SyncEngine.Library.Padded

/-!
# Items by the grammar

What the grammar lets a server write for a row of items, and that the reader gets the items back from it.
-/

namespace SyncEngine
namespace Imap

open Utf8

/-- A run of visible characters none of which begins another kind of item. -/
def IsAtom (text : List Char) : Prop :=
  text ≠ [] ∧ ∀ c ∈ text, 0x20 < c.toNat ∧ c.toNat < 0x7f ∧ c ≠ '(' ∧ c ≠ ')' ∧ c ≠ '{' ∧ c ≠ '"'

def escapeQuoted (text : List Char) : List Char :=
  text.flatMap fun c => if c = '"' ∨ c = '\\' then ['\\', c] else [c]

/-- What stands for a row of items, with literals of at most `limit` bytes.  A space is between two items; two lists
may also stand next to each other without one. -/
inductive Written (limit : Nat) : List Item → Bytes → Prop
  | none : Written limit [] []
  | nil (text : List Char) (h : IsAtom text) (hnil : isNil text = true) : Written limit [.nil] (Utf8.bytes text)
  | atom (text : List Char) (h : IsAtom text) (hnil : isNil text = false) : Written limit [.atom text] (Utf8.bytes text)
  | quoted (text : List Char) (h : ∀ c ∈ text, c ≠ '\r' ∧ c ≠ '\n') :
      Written limit [.quoted text] (quote :: (Utf8.bytes (escapeQuoted text) ++ [quote]))
  | literal (digits : List Char) (bytes : Bytes) (hne : digits ≠ []) (hdigits : IsDigits digits)
      (hcount : digitsValue digits = bytes.length) (hlimit : bytes.length ≤ limit) :
      Written limit [.literal bytes]
        (leftBrace :: (Utf8.bytes digits ++ rightBrace :: carriageReturn :: lineFeed :: bytes))
  | list {items : List Item} {out : Bytes} (h : Written limit items out) :
      Written limit [.list items] (leftParen :: (out ++ [rightParen]))
  | spaced {item next : Item} {items : List Item} {out out' : Bytes} (h : Written limit [item] out)
      (h' : Written limit (next :: items) out') : Written limit (item :: next :: items) (out ++ space :: out')
  | lists {inner inner' items : List Item} {out out' : Bytes} (h : Written limit [.list inner] out)
      (h' : Written limit (.list inner' :: items) out') :
      Written limit (.list inner :: .list inner' :: items) (out ++ out')

/-- The end of the response, or a byte an atom ends before. -/
def Stops (tail : Bytes) : Prop := ∀ b ∈ tail.head?, isBreak b = true

/-! ## One item -/

section One

variable {limit : Nat} {text digits : List Char} {out tail bytes : Bytes} {items : List Item} {item : Item} {c : Char} {b : UInt8}

def IsPlainByte (b : UInt8) : Prop := b ≠ quote ∧ b ≠ backslash ∧ isLineEnd b = false

theorem parseQuoted_quote (out tail : Bytes) : parseQuoted out (quote :: tail) = .ok (.quoted (Utf8.lossy out), tail) := by
  rw [parseQuoted.eq_def]
  dsimp only
  rw [if_pos rfl]

theorem parseQuoted_escape (out tail : Bytes) (h : b = quote ∨ b = backslash) :
    parseQuoted out (backslash :: b :: tail) = parseQuoted (out ++ [b]) tail := by
  have hspecial : (decide (b = quote) || decide (b = backslash)) = true := by simpa using h
  rw [parseQuoted.eq_def]
  dsimp only
  rw [if_neg (by decide), if_pos rfl, if_pos hspecial]

theorem parseQuoted_cons (h : IsPlainByte b) (out tail : Bytes) :
    parseQuoted out (b :: tail) = parseQuoted (out ++ [b]) tail := by
  obtain ⟨hquote, hback, hend⟩ := h
  rw [parseQuoted.eq_def]
  dsimp only
  rw [if_neg hquote, if_neg hback, hend, if_neg Bool.false_ne_true]

theorem parseQuoted_plain (h : ∀ b ∈ bytes, IsPlainByte b) (out tail : Bytes) :
    parseQuoted out (bytes ++ tail) = parseQuoted (out ++ bytes) tail := by
  induction bytes generalizing out with
  | nil => simp
  | cons b bytes ih =>
    obtain ⟨hb, hbytes⟩ := List.forall_mem_cons.mp h
    rw [List.cons_append, parseQuoted_cons hb, ih hbytes, List.append_assoc]
    rfl

theorem ascii_ne {c d : Char} (hc : c.toNat < 128) (hd : d.toNat < 128) (h : c ≠ d) : Utf8.ascii c ≠ Utf8.ascii d := by
  intro hsame
  have hnat := congrArg UInt8.toNat hsame
  rw [ascii_toNat hc, ascii_toNat hd] at hnat
  exact h (Char.toNat_inj.mp hnat)

theorem isPlainByte_encode (hquote : c ≠ '"') (hback : c ≠ '\\') (hreturn : c ≠ '\r') (hfeed : c ≠ '\n') :
    ∀ b ∈ String.utf8EncodeChar c, IsPlainByte b := by
  intro b hb
  by_cases hc : c.toNat < 128
  · rw [encode_of_lt hc] at hb
    rw [List.mem_singleton.mp hb]
    refine ⟨ascii_ne hc (by decide) hquote, ascii_ne hc (by decide) hback, ?_⟩
    have hr : Utf8.ascii c ≠ carriageReturn := ascii_ne (d := '\r') hc (by decide) hreturn
    have hf : Utf8.ascii c ≠ lineFeed := ascii_ne (d := '\n') hc (by decide) hfeed
    simp [isLineEnd, hr, hf]
  · have hhigh := high_of_le (Nat.le_of_not_lt hc) b hb
    have hne : ∀ d : UInt8, d.toNat < 128 → b ≠ d := by
      rintro d hd rfl
      omega
    refine ⟨hne _ (by decide), hne _ (by decide), ?_⟩
    have hr := hne carriageReturn (by decide)
    have hf := hne lineFeed (by decide)
    simp [isLineEnd, hr, hf]

theorem parseQuoted_escaped (h : ∀ c ∈ text, c ≠ '\r' ∧ c ≠ '\n') (out : Bytes) :
    parseQuoted out (Utf8.bytes (escapeQuoted text) ++ quote :: tail) =
      .ok (.quoted (Utf8.lossy (out ++ Utf8.bytes text)), tail) := by
  induction text generalizing out with
  | nil =>
    show parseQuoted out (quote :: tail) = .ok (.quoted (Utf8.lossy (out ++ [])), tail)
    rw [parseQuoted_quote, List.append_nil]
  | cons c text ih =>
    obtain ⟨⟨hreturn, hfeed⟩, htext⟩ := List.forall_mem_cons.mp h
    have hcons : escapeQuoted (c :: text) = (if c = '"' ∨ c = '\\' then ['\\', c] else [c]) ++ escapeQuoted text := rfl
    rw [hcons, bytes_append, bytes_cons, List.append_assoc]
    by_cases hspecial : c = '"' ∨ c = '\\'
    · have hbyte : Utf8.ascii c = quote ∨ Utf8.ascii c = backslash := by
        rcases hspecial with rfl | rfl
        · exact .inl rfl
        · exact .inr rfl
      have hc : c.toNat < 128 := by
        rcases hspecial with rfl | rfl <;> decide
      have hbytes : Utf8.bytes ['\\', c] = [backslash, Utf8.ascii c] := by
        rw [bytes_eq_map]
        · rfl
        · intro d hd
          simp only [List.mem_cons, List.not_mem_nil, or_false] at hd
          rcases hd with rfl | rfl
          · decide
          · exact hc
      rw [if_pos hspecial, hbytes]
      show parseQuoted out (backslash :: Utf8.ascii c :: (Utf8.bytes (escapeQuoted text) ++ quote :: tail)) = _
      rw [parseQuoted_escape _ _ hbyte, ih htext, encode_of_lt hc, List.append_assoc]
    · obtain ⟨hquote, hback⟩ := not_or.mp hspecial
      rw [if_neg hspecial, bytes_cons]
      show parseQuoted out ((String.utf8EncodeChar c ++ []) ++ _) = _
      rw [List.append_nil, parseQuoted_plain (isPlainByte_encode hquote hback hreturn hfeed), ih htext, List.append_assoc]

theorem isDigit_lt (h : c.isDigit = true) : c.toNat < 128 := by
  have hbounds := digit_bounds h
  omega

theorem literalDigits_digits (h : IsDigits digits) (before : List Char) :
    literalDigits before (Utf8.bytes digits ++ rightBrace :: tail) = .ok (before ++ digits, tail) := by
  induction digits generalizing before with
  | nil =>
    show literalDigits before (rightBrace :: tail) = _
    rw [literalDigits, if_pos rfl, List.append_nil]
  | cons c digits ih =>
    obtain ⟨hc, hdigits⟩ := List.forall_mem_cons.mp h
    have hlow := isDigit_lt hc
    have hbounds := digit_bounds hc
    have hbyte : (Utf8.ascii c).toNat = c.toNat := ascii_toNat hlow
    have hdigit : isDigitByte (Utf8.ascii c) = true := by
      simp only [isDigitByte, hbyte, Bool.and_eq_true, decide_eq_true_eq]
      omega
    have hbrace : Utf8.ascii c ≠ rightBrace := by
      intro hsame
      have hnat := congrArg UInt8.toNat hsame
      have hcode : rightBrace.toNat = 125 := rfl
      omega
    rw [bytes_cons, encode_of_lt hlow, List.append_assoc, List.singleton_append, literalDigits,
      if_neg hbrace, if_pos hdigit, hbyte, Char.ofNat_toNat, ih hdigits, List.append_assoc]
    rfl

theorem parseLiteral_written (hne : digits ≠ []) (hdigits : IsDigits digits)
    (hcount : digitsValue digits = bytes.length) (hsmall : bytes.length < 2 ^ 64) :
    parseLiteral (Utf8.bytes digits ++ rightBrace :: carriageReturn :: lineFeed :: (bytes ++ tail)) =
      .ok (.literal bytes, tail) := by
  have hnumber : parseUnsigned 64 digits = some (digitsValue digits) :=
    parseUnsigned_digits hne hdigits (by rw [hcount]; exact hsmall)
  have hfits : bytes.length ≤ (bytes ++ tail).length := by simp
  unfold parseLiteral
  rw [literalDigits_digits hdigits, List.nil_append]
  dsimp only
  rw [hnumber, hcount]
  show (if bytes.length ≤ (bytes ++ tail).length then _ else _) = _
  rw [if_pos hfits]
  show Except.ok (Item.literal ((bytes ++ tail).take bytes.length), (bytes ++ tail).drop bytes.length) = _
  rw [List.take_left, List.drop_left]

theorem isBreak_ascii (hc : c.toNat < 128) (hspace : c ≠ ' ') (hleft : c ≠ '(') (hright : c ≠ ')') (hreturn : c ≠ '\r')
    (hfeed : c ≠ '\n') : isBreak (Utf8.ascii c) = false := by
  have h1 : Utf8.ascii c ≠ space := ascii_ne (d := ' ') hc (by decide) hspace
  have h2 : Utf8.ascii c ≠ leftParen := ascii_ne (d := '(') hc (by decide) hleft
  have h3 : Utf8.ascii c ≠ rightParen := ascii_ne (d := ')') hc (by decide) hright
  have h4 : Utf8.ascii c ≠ carriageReturn := ascii_ne (d := '\r') hc (by decide) hreturn
  have h5 : Utf8.ascii c ≠ lineFeed := ascii_ne (d := '\n') hc (by decide) hfeed
  simp [isBreak, isLineEnd, h1, h2, h3, h4, h5]

theorem parseAtom_written (h : IsAtom text) (htail : Stops tail) :
    parseAtom (Utf8.bytes text ++ tail) = .ok (if isNil text then .nil else .atom text, tail) := by
  have hlow : ∀ c ∈ text, c.toNat < 128 := fun c hc => by
    have hbounds := h.2 c hc
    omega
  have hgo : ∀ b ∈ Utf8.bytes text, (!isBreak b) = true := by
    intro b hb
    rw [bytes_eq_map hlow] at hb
    obtain ⟨c, hc, rfl⟩ := List.mem_map.mp hb
    obtain ⟨hvisible, -, hleft, hright, -, -⟩ := h.2 c hc
    have hcontrol : ∀ d : Char, d.toNat ≤ 0x20 → c ≠ d := by
      rintro d hd rfl
      omega
    rw [isBreak_ascii (hlow c hc) (hcontrol ' ' (by decide)) hleft hright (hcontrol '\r' (by decide))
      (hcontrol '\n' (by decide))]
    rfl
  have hrun : (Utf8.bytes text ++ tail).takeWhile (fun b => !isBreak b) = Utf8.bytes text := by
    rw [List.takeWhile_append_of_pos hgo]
    cases tail with
    | nil => simp
    | cons b tail => rw [List.takeWhile_cons_of_neg (by simp [htail b rfl]), List.append_nil]
  have hleft : (Utf8.bytes text ++ tail).dropWhile (fun b => !isBreak b) = tail := by
    rw [List.dropWhile_append_of_pos hgo]
    cases tail with
    | nil => rfl
    | cons b tail => rw [List.dropWhile_cons_of_neg (by simp [htail b rfl])]
  have hne : Utf8.bytes text ≠ [] := by
    intro hnil
    have hsize := length_bytes (s := text)
    rw [hnil] at hsize
    exact h.1 (size_eq_zero hsize.symm)
  unfold parseAtom
  dsimp only
  rw [hrun, hleft, if_neg hne, lossy_bytes]

end One

/-! ## Rows of items -/

section Rows

variable {limit fuel depth : Nat} {items inner acc : List Item} {item : Item} {out tail rest : Bytes} {b : UInt8}

/-- A byte no row goes on without an item at. -/
def Begins (b : UInt8) : Prop := b ≠ space ∧ b ≠ rightParen ∧ isLineEnd b = false

/-- How the reader takes a row: as one item, within a list, and at the top. -/
structure Reads (depth : Nat) (items : List Item) (out : Bytes) : Prop where
  one : ∀ item, items = [item] → ∀ fuel tail, Stops tail → 2 * (out ++ tail).length + 1 ≤ fuel →
    parseItem fuel depth (out ++ tail) = some (.ok (item, tail))
  within : ∀ fuel acc tail, Stops tail → 2 * (out ++ tail).length + 2 ≤ fuel → ∃ fuel', 2 * tail.length + 2 ≤ fuel' ∧
    parseItem.parseList fuel depth acc (out ++ tail) = parseItem.parseList fuel' depth (acc ++ items) tail
  atTop : depth = 0 → ∀ fuel acc tail, Stops tail → 2 * (out ++ tail).length + 2 ≤ fuel → ∃ fuel',
    2 * tail.length + 2 ≤ fuel' ∧ parseAll fuel acc (out ++ tail) = parseAll fuel' (acc ++ items) tail

theorem skipSpaces_space (rest : Bytes) : skipSpaces (space :: rest) = skipSpaces rest := rfl

theorem skipSpaces_cons (h : b ≠ space) (rest : Bytes) : skipSpaces (b :: rest) = b :: rest := by
  unfold skipSpaces
  rw [List.dropWhile_cons_of_neg (by simpa using h)]

theorem parseList_space (fuel depth : Nat) (acc : List Item) (rest : Bytes) :
    parseItem.parseList fuel depth acc (space :: rest) = parseItem.parseList fuel depth acc rest := by
  cases fuel with
  | zero => rw [parseItem.parseList, parseItem.parseList]
  | succ fuel => rw [parseItem.parseList, parseItem.parseList, skipSpaces_space]

theorem parseAll_space (fuel : Nat) (acc : List Item) (rest : Bytes) :
    parseAll fuel acc (space :: rest) = parseAll fuel acc rest := by
  cases fuel with
  | zero => rfl
  | succ fuel => rw [parseAll, parseAll, skipSpaces_space]

theorem reads_one (hb : Begins b) (h : ∀ fuel tail, Stops tail → 2 * (b :: rest ++ tail).length + 1 ≤ fuel →
    parseItem fuel depth (b :: rest ++ tail) = some (.ok (item, tail))) : Reads depth [item] (b :: rest) where
  one := by
    rintro item' hitem
    obtain rfl := (List.cons.inj hitem).1
    exact h
  within := by
    intro fuel acc tail htail hfuel
    cases fuel with
    | zero => exact nomatch hfuel
    | succ fuel =>
      have hread := h fuel tail htail (by omega)
      simp only [List.length_append, List.length_cons] at hfuel
      refine ⟨fuel, by omega, ?_⟩
      rw [parseItem.parseList, List.cons_append, skipSpaces_cons hb.1]
      dsimp only
      rw [if_neg hb.2.1, ← List.cons_append, hread]
  atTop := by
    rintro rfl fuel acc tail htail hfuel
    cases fuel with
    | zero => exact nomatch hfuel
    | succ fuel =>
      have hread := h fuel tail htail (by omega)
      simp only [List.length_append, List.length_cons] at hfuel
      refine ⟨fuel, by omega, ?_⟩
      rw [parseAll, List.cons_append, skipSpaces_cons hb.1, List.dropWhile_cons_of_neg (by simp [hb.2.2])]
      dsimp only
      rw [← List.cons_append, hread]

theorem parseItem_cons (hb : Begins b) : parseItem (fuel + 1) depth (b :: rest) =
    if b = leftParen then
      if maxDepth < depth + 1 then some (.error "list nested too deeply")
      else parseItem.parseList fuel (depth + 1) [] rest
    else if b = quote then some (parseQuoted [] rest)
    else if b = leftBrace then some (parseLiteral rest)
    else some (parseAtom (b :: rest)) := by
  rw [parseItem, skipSpaces_cons hb.1]

theorem begins_atom {text : List Char} (h : IsAtom text) : ∃ b rest, Utf8.bytes text = b :: rest ∧ Begins b ∧
    b ≠ leftParen ∧ b ≠ quote ∧ b ≠ leftBrace := by
  obtain ⟨hne, hvisible⟩ := h
  cases text with
  | nil => exact absurd rfl hne
  | cons c text =>
    obtain ⟨hlow, hhigh, hleft, hright, hbrace, hquote⟩ := hvisible c List.mem_cons_self
    have hc : c.toNat < 128 := by omega
    have hcontrol : ∀ d : Char, d.toNat ≤ 0x20 → c ≠ d := by
      rintro d hd rfl
      omega
    have hr : Utf8.ascii c ≠ carriageReturn := ascii_ne (d := '\r') hc (by decide) (hcontrol _ (by decide))
    have hf : Utf8.ascii c ≠ lineFeed := ascii_ne (d := '\n') hc (by decide) (hcontrol _ (by decide))
    refine ⟨Utf8.ascii c, Utf8.bytes text, ?_, ⟨?_, ?_, ?_⟩, ?_, ?_, ?_⟩
    · rw [bytes_cons, encode_of_lt hc]
      rfl
    · exact ascii_ne (d := ' ') hc (by decide) (hcontrol _ (by decide))
    · exact ascii_ne (d := ')') hc (by decide) hright
    · simp [isLineEnd, hr, hf]
    · exact ascii_ne (d := '(') hc (by decide) hleft
    · exact ascii_ne (d := '"') hc (by decide) hquote
    · exact ascii_ne (d := '{') hc (by decide) hbrace

theorem reads_atom {text : List Char} (h : IsAtom text) (hitem : (if isNil text then Item.nil else .atom text) = item) :
    Reads depth [item] (Utf8.bytes text) := by
  obtain ⟨b, rest, htext, hbegins, hleft, hquote, hbrace⟩ := begins_atom h
  rw [htext]
  apply reads_one hbegins
  intro fuel tail htail hfuel
  cases fuel with
  | zero => exact nomatch hfuel
  | succ fuel =>
    rw [List.cons_append, parseItem_cons hbegins, if_neg hleft, if_neg hquote, if_neg hbrace, ← List.cons_append, ← htext,
      parseAtom_written h htail, hitem]

theorem stops_space (tail : Bytes) : Stops (space :: tail) := by
  intro b hb
  obtain rfl := Option.some.inj hb
  rfl

theorem written_list_begins (h : Written limit (.list inner :: items) out) : ∃ rest, out = leftParen :: rest := by
  cases h with
  | list h => exact ⟨_, rfl⟩
  | spaced h h' =>
    cases h with
    | list h => exact ⟨_, rfl⟩
  | lists h h' =>
    cases h with
    | list h => exact ⟨_, rfl⟩

theorem Reads.append {items' : List Item} {out' : Bytes} (h : Reads depth [item] out) (h' : Reads depth items' out')
    (hne : items' ≠ []) {gap : Bytes} (hgap : gap = [] ∨ gap = [space]) (hstops : ∀ tail, Stops (gap ++ out' ++ tail)) :
    Reads depth (item :: items') (out ++ (gap ++ out')) where
  one := by
    intro item' hitem
    exact absurd (List.cons.inj hitem).2 hne
  within := by
    intro fuel acc tail htail hfuel
    simp only [List.length_append] at hfuel
    obtain ⟨fuel₁, hfuel₁, hread₁⟩ := h.within fuel acc (gap ++ out' ++ tail) (hstops tail) (by
      simp only [List.length_append]
      omega)
    simp only [List.length_append] at hfuel₁
    obtain ⟨fuel₂, hfuel₂, hread₂⟩ := h'.within fuel₁ (acc ++ [item]) tail htail (by
      rw [List.length_append]
      omega)
    refine ⟨fuel₂, hfuel₂, ?_⟩
    have hskip : parseItem.parseList fuel₁ depth (acc ++ [item]) (gap ++ out' ++ tail) =
        parseItem.parseList fuel₁ depth (acc ++ [item]) (out' ++ tail) := by
      rcases hgap with rfl | rfl
      · rfl
      · exact parseList_space _ _ _ _
    rw [List.append_assoc, hread₁, hskip, hread₂, List.append_assoc]
    rfl
  atTop := by
    intro hdepth fuel acc tail htail hfuel
    simp only [List.length_append] at hfuel
    obtain ⟨fuel₁, hfuel₁, hread₁⟩ := h.atTop hdepth fuel acc (gap ++ out' ++ tail) (hstops tail) (by
      simp only [List.length_append]
      omega)
    simp only [List.length_append] at hfuel₁
    obtain ⟨fuel₂, hfuel₂, hread₂⟩ := h'.atTop hdepth fuel₁ (acc ++ [item]) tail htail (by
      rw [List.length_append]
      omega)
    refine ⟨fuel₂, hfuel₂, ?_⟩
    have hskip : parseAll fuel₁ (acc ++ [item]) (gap ++ out' ++ tail) = parseAll fuel₁ (acc ++ [item]) (out' ++ tail) := by
      rcases hgap with rfl | rfl
      · rfl
      · exact parseAll_space _ _ _
    rw [List.append_assoc, hread₁, hskip, hread₂, List.append_assoc]
    rfl

/-- What the grammar writes is read as it was, up to the depth the reader takes. -/
theorem Written.reads (h : Written limit items out) (hlimit : limit < 2 ^ 64) :
    ∀ depth, depth + nestingAll items ≤ maxDepth → Reads depth items out := by
  induction h with
  | none =>
    intro depth _
    refine ⟨fun item hitem => absurd hitem.symm (List.cons_ne_nil _ _), ?_, ?_⟩
    · exact fun fuel acc tail _ hfuel => ⟨fuel, hfuel, by rw [List.append_nil]; rfl⟩
    · exact fun _ fuel acc tail _ hfuel => ⟨fuel, hfuel, by rw [List.append_nil]; rfl⟩
  | nil text h hnil => exact fun depth _ => reads_atom h (if_pos hnil)
  | atom text h hnil => exact fun depth _ => reads_atom h (by rw [hnil]; rfl)
  | quoted text h =>
    intro depth _
    have hbegins : Begins quote := ⟨by decide, by decide, rfl⟩
    apply reads_one hbegins
    intro fuel tail _ hfuel
    cases fuel with
    | zero => cases hfuel
    | succ fuel =>
      rw [List.cons_append, parseItem_cons hbegins, if_neg (by decide), if_pos rfl, List.append_assoc, List.singleton_append,
        parseQuoted_escaped h, List.nil_append, lossy_bytes]
  | literal digits bytes hne hdigits hcount hbytes =>
    intro depth _
    have hbegins : Begins leftBrace := ⟨by decide, by decide, rfl⟩
    apply reads_one hbegins
    intro fuel tail _ hfuel
    cases fuel with
    | zero => cases hfuel
    | succ fuel =>
      have hread := @parseLiteral_written digits tail bytes hne hdigits hcount (by omega)
      have htext : Utf8.bytes digits ++ rightBrace :: carriageReturn :: lineFeed :: bytes ++ tail =
          Utf8.bytes digits ++ rightBrace :: carriageReturn :: lineFeed :: (bytes ++ tail) := by simp
      rw [List.cons_append, parseItem_cons hbegins, if_neg (by decide), if_neg (by decide), if_pos rfl, htext, hread]
  | @list items out h ih =>
    intro depth hdepth
    have hnest : nestingAll [Item.list items] = 1 + nestingAll items := by
      rw [nestingAll, nestingAll, Item.nesting, Nat.max_zero]
    rw [hnest] at hdepth
    have hbegins : Begins leftParen := ⟨by decide, by decide, rfl⟩
    apply reads_one hbegins
    intro fuel tail _ hfuel
    cases fuel with
    | zero => cases hfuel
    | succ fuel =>
      have htext : out ++ [rightParen] ++ tail = out ++ (rightParen :: tail) := by simp
      have hstops : Stops (rightParen :: tail) := by
        intro b hb
        obtain rfl := Option.some.inj hb
        rfl
      simp only [List.length_append, List.length_cons] at hfuel
      obtain ⟨fuel', hfuel', hread⟩ := (ih (depth + 1) (by omega)).within fuel [] (rightParen :: tail) hstops (by
        simp only [List.length_append, List.length_cons]
        omega)
      rw [List.cons_append, parseItem_cons hbegins, if_pos rfl, if_neg (by omega), htext, hread]
      cases fuel' with
      | zero => cases hfuel'
      | succ fuel' =>
        rw [parseItem.parseList, skipSpaces_cons (by decide)]
        dsimp only
        rw [if_pos rfl]
        rfl
  | @spaced item next items out out' h h' ih ih' =>
    intro depth hdepth
    rw [nestingAll] at hdepth
    have hfirst : depth + nestingAll [item] ≤ maxDepth := by
      rw [nestingAll, nestingAll]
      omega
    exact (ih depth hfirst).append (ih' depth (by omega)) (List.cons_ne_nil _ _) (.inr rfl) fun tail => stops_space _
  | @lists inner inner' items out out' h h' ih ih' =>
    intro depth hdepth
    rw [nestingAll] at hdepth
    have hfirst : depth + nestingAll [Item.list inner] ≤ maxDepth := by
      rw [nestingAll, nestingAll]
      omega
    obtain ⟨rest, rfl⟩ := written_list_begins h'
    have hstops : ∀ tail, Stops ([] ++ leftParen :: rest ++ tail) := by
      intro tail b hb
      obtain rfl := Option.some.inj hb
      rfl
    exact (ih depth hfirst).append (ih' depth (by omega)) (List.cons_ne_nil _ _) (.inl rfl) hstops

theorem itemsOf_written (h : Written limit items out) (hlimit : limit < 2 ^ 64) (hdepth : nestingAll items ≤ maxDepth)
    {ends : Bytes} (hends : ∀ b ∈ ends, isLineEnd b = true) : itemsOf (out ++ ends) = some (.ok items) := by
  have hstops : Stops ends := by
    intro b hb
    have hend := hends b (List.mem_of_mem_head? hb)
    simp [isBreak, hend]
  obtain ⟨fuel, hfuel, hread⟩ := (h.reads hlimit 0 (by omega)).atTop rfl _ [] ends hstops (Nat.le_refl _)
  have hspaces : skipSpaces ends = ends := by
    cases ends with
    | nil => rfl
    | cons b ends =>
      apply skipSpaces_cons
      rintro rfl
      exact absurd (hends space List.mem_cons_self) (by decide)
  unfold itemsOf
  rw [hread]
  cases fuel with
  | zero => exact nomatch hfuel
  | succ fuel => rw [parseAll, hspaces, List.dropWhile_eq_nil_iff.mpr hends, List.nil_append]

end Rows

end Imap
end SyncEngine
