import SyncEngine.Imap.Written

/-!
# Lines of a response

A line goes up to a line feed, with every literal it announces read in the middle of it.  The bytes come in pieces that
may be cut anywhere.  What the grammar writes is framed as one line, and read as it was.
-/

namespace SyncEngine
namespace Imap

def maxLiteral : Nat := 64 * 1024 * 1024

def plusSign : UInt8 := 43

def trailingLiteralLen (line : Bytes) : Option Nat :=
  match stripBack [lineFeed] line with
  | none => none
  | some trimmed =>
    match stripBack [rightBrace] ((stripBack [carriageReturn] trimmed).getD trimmed) with
    | none => none
    | some inside =>
      let inside := (stripBack [plusSign] inside).getD inside
      if leftBrace ∈ inside then
        let digits := (inside.reverse.takeWhile fun b => b ≠ leftBrace).reverse
        if digits = [] || !digits.all isDigitByte then none
        else parseUnsigned 64 (digits.map fun b => Char.ofNat b.toNat)
      else none

/-! ## The stream -/

/-- The pieces of the stream after a piece is read in part. -/
def leave (rest : Bytes) (chunks : List Bytes) : List Bytes := if rest = [] then chunks else rest :: chunks

/-- The bytes through the next line feed; an empty piece is the end of the stream. -/
def readUntil : List Bytes → Bytes × List Bytes
  | [] => ([], [])
  | chunk :: chunks =>
    if chunk = [] then ([], chunks)
    else if lineFeed ∈ chunk then
      let line := chunk.takeWhile (fun b => b ≠ lineFeed) ++ [lineFeed]
      (line, leave (chunk.drop line.length) chunks)
    else
      let (line, left) := readUntil chunks
      (chunk ++ line, left)

/-- So many bytes, in as many reads as they take; `none` where the stream ends before. -/
def readExact : Nat → List Bytes → Option (Bytes × List Bytes)
  | 0, chunks => some ([], chunks)
  | _ + 1, [] => none
  | n + 1, chunk :: chunks =>
    if chunk = [] then none
    else if n + 1 ≤ chunk.length then some (chunk.take (n + 1), leave (chunk.drop (n + 1)) chunks)
    else (readExact (n + 1 - chunk.length) chunks).map fun (bytes, left) => (chunk ++ bytes, left)

def closedMidResponse : String := "connection closed mid-response"

def literalTooLong (len : Nat) : String :=
  s!"server announced a {len}-byte literal exceeding the {maxLiteral}-byte cap"

/-- The line so far and what it goes on with; `none` is more literals than there are passes. -/
def readLineFrom : Nat → Bytes → List Bytes → Option (Except String (Bytes × List Bytes))
  | 0, _, _ => none
  | fuel + 1, line, chunks =>
    let (read, left) := readUntil chunks
    if read = [] then some (.error closedMidResponse)
    else
      match trailingLiteralLen read with
      | none => some (.ok (line ++ read, left))
      | some len =>
        if maxLiteral < len then some (.error (literalTooLong len))
        else
          match readExact len left with
          | none => some (.error closedMidResponse)
          | some (bytes, left) => readLineFrom fuel (line ++ read ++ bytes) left

def readLine (chunks : List Bytes) : Option (Except String (Bytes × List Bytes)) :=
  readLineFrom (chunks.flatten.length + 1) [] chunks

section Stream

variable {chunks : List Bytes} {bytes tail before rest : Bytes}

/-- Pieces with something in each. -/
def Flowing (chunks : List Bytes) : Prop := ∀ chunk ∈ chunks, chunk ≠ []

theorem leave_flatten (rest : Bytes) (chunks : List Bytes) : (leave rest chunks).flatten = rest ++ chunks.flatten := by
  unfold leave
  split
  · rename_i hrest
    rw [hrest]
    rfl
  · rfl

theorem leave_flowing (rest : Bytes) (h : Flowing chunks) : Flowing (leave rest chunks) := by
  unfold leave
  split
  · exact h
  · rename_i hrest
    exact List.forall_mem_cons.mpr ⟨hrest, h⟩

/-- However the stream is cut, the bytes through the line feed are read. -/
theorem readUntil_flatten (h : Flowing chunks) (hno : lineFeed ∉ before)
    (hstream : chunks.flatten = before ++ lineFeed :: tail) :
    ∃ left, readUntil chunks = (before ++ [lineFeed], left) ∧ left.flatten = tail ∧ Flowing left := by
  induction chunks generalizing before with
  | nil => exact absurd hstream.symm (List.append_ne_nil_of_right_ne_nil _ (List.cons_ne_nil _ _))
  | cons chunk chunks ih =>
    obtain ⟨hne, hflowing⟩ := List.forall_mem_cons.mp h
    rw [List.flatten_cons] at hstream
    rw [readUntil, if_neg hne]
    by_cases hmem : lineFeed ∈ chunk
    · obtain ⟨front, back, rfl, hfront⟩ := List.eq_append_cons_of_mem hmem
      have hsame : front ++ lineFeed :: (back ++ chunks.flatten) = before ++ lineFeed :: tail := by
        rw [← hstream, List.append_assoc]
        rfl
      obtain ⟨rfl, rfl⟩ := cut_at_first hsame hfront hno
      have htake : (front ++ lineFeed :: back).takeWhile (fun b => b ≠ lineFeed) = front := by
        have hkeep : ∀ b ∈ front, decide (b ≠ lineFeed) = true := fun b hb => decide_eq_true fun he => hfront (he ▸ hb)
        rw [List.takeWhile_append_of_pos hkeep, List.takeWhile_cons_of_neg (by simp), List.append_nil]
      have hdrop : (front ++ lineFeed :: back).drop (front ++ [lineFeed]).length = back := by
        rw [List.length_append, ← List.drop_drop, List.drop_left]
        rfl
      rw [if_pos hmem]
      dsimp only
      rw [htake, hdrop]
      exact ⟨leave back chunks, rfl, leave_flatten back chunks, leave_flowing back hflowing⟩
    · rw [if_neg hmem]
      rcases List.append_eq_append_iff.mp hstream with ⟨gap, hbefore, hchunks⟩ | ⟨gap, hchunk, hrest⟩
      · rw [hbefore, List.mem_append, not_or] at hno
        obtain ⟨left, hread, hleft, hflow⟩ := ih hflowing hno.2 hchunks
        rw [hread]
        refine ⟨left, ?_, hleft, hflow⟩
        rw [hbefore, List.append_assoc]
      · cases gap with
        | nil =>
          obtain ⟨left, hread, hleft, hflow⟩ := @ih [] hflowing List.not_mem_nil hrest.symm
          rw [hread]
          refine ⟨left, ?_, hleft, hflow⟩
          rw [hchunk, List.append_nil]
          rfl
        | cons b gap =>
          obtain ⟨rfl, -⟩ := List.cons.inj hrest
          exact absurd (by rw [hchunk]; simp) hmem

theorem readExact_flatten (h : Flowing chunks) (hstream : chunks.flatten = bytes ++ tail) :
    ∃ left, readExact bytes.length chunks = some (bytes, left) ∧ left.flatten = tail ∧ Flowing left := by
  induction chunks generalizing bytes with
  | nil =>
    obtain ⟨rfl, rfl⟩ := List.append_eq_nil_iff.mp hstream.symm
    exact ⟨[], rfl, rfl, h⟩
  | cons chunk chunks ih =>
    obtain ⟨hne, hflowing⟩ := List.forall_mem_cons.mp h
    cases bytes with
    | nil => exact ⟨chunk :: chunks, rfl, hstream, h⟩
    | cons b bytes =>
      rw [List.flatten_cons] at hstream
      rw [List.length_cons, readExact, if_neg hne]
      by_cases hlength : bytes.length + 1 ≤ chunk.length
      · rw [if_pos hlength]
        have hfront : chunk.take (bytes.length + 1) = b :: bytes := by
          have htake := congrArg (List.take (bytes.length + 1)) hstream
          rw [List.take_append_of_le_length hlength, List.take_left' (List.length_cons)] at htake
          exact htake
        have hback : chunk.drop (bytes.length + 1) ++ chunks.flatten = tail := by
          have hdrop := congrArg (List.drop (bytes.length + 1)) hstream
          rw [List.drop_append_of_le_length hlength, List.drop_left' (List.length_cons)] at hdrop
          exact hdrop
        rw [hfront]
        exact ⟨_, rfl, by rw [leave_flatten, hback], leave_flowing _ hflowing⟩
      · rw [if_neg hlength]
        obtain ⟨more, hbytes, hrest⟩ : ∃ more, b :: bytes = chunk ++ more ∧ chunks.flatten = more ++ tail := by
          rcases List.append_eq_append_iff.mp hstream with ⟨gap, hbytes, hchunks⟩ | ⟨gap, hchunk, hrest⟩
          · exact ⟨gap, hbytes, hchunks⟩
          · have hle := congrArg List.length hchunk
            simp only [List.length_append, List.length_cons] at hle
            omega
        have hcount : bytes.length + 1 - chunk.length = more.length := by
          have hlengths := congrArg List.length hbytes
          simp only [List.length_append, List.length_cons] at hlengths
          omega
        obtain ⟨left, hread, hleft, hflow⟩ := ih hflowing hrest
        rw [hcount, hread]
        refine ⟨left, ?_, hleft, hflow⟩
        rw [hbytes]
        rfl

end Stream

/-! ## Announced literals -/

section Announced

variable {text before inside : Bytes} {digits : List Char} {b : UInt8}

theorem strip_lineEnd (text : Bytes) : (stripBack [lineFeed] (text ++ [carriageReturn, lineFeed])) = some (text ++ [carriageReturn]) := by
  have hsame : text ++ [carriageReturn, lineFeed] = (text ++ [carriageReturn]) ++ [lineFeed] := by simp
  rw [hsame, stripBack_append]

theorem ascii_digits (h : IsDigits digits) : ∀ b ∈ Utf8.bytes digits, isDigitByte b = true := by
  intro b hb
  rw [Utf8.bytes_eq_map fun c hc => isDigit_lt (h c hc)] at hb
  obtain ⟨c, hc, rfl⟩ := List.mem_map.mp hb
  have hbounds := digit_bounds (h c hc)
  simp only [isDigitByte, Utf8.ascii_toNat (isDigit_lt (h c hc)), Bool.and_eq_true, decide_eq_true_eq]
  omega

theorem digitByte_ne (h : isDigitByte b = true) : b ≠ leftBrace ∧ b ≠ quote ∧ b ≠ plusSign ∧ b ≠ lineFeed := by
  refine ⟨?_, ?_, ?_, ?_⟩
  all_goals
    rintro rfl
    exact absurd h (by decide)

theorem chars_of_digits (h : IsDigits digits) : (Utf8.bytes digits).map (fun b => Char.ofNat b.toNat) = digits := by
  have hlow : ∀ c ∈ digits, c.toNat < 128 := fun c hc => isDigit_lt (h c hc)
  rw [Utf8.bytes_eq_map hlow, List.map_map]
  conv_rhs => rw [← List.map_id digits]
  apply List.map_congr_left
  intro c hc
  show Char.ofNat (Utf8.ascii c).toNat = c
  rw [Utf8.ascii_toNat (hlow c hc), Char.ofNat_toNat]

theorem trailingLiteralLen_header (hne : digits ≠ []) (hdigits : IsDigits digits) (hsmall : digitsValue digits < 2 ^ 64)
    (before : Bytes) :
    trailingLiteralLen (before ++ leftBrace :: (Utf8.bytes digits ++ [rightBrace, carriageReturn, lineFeed])) =
      some (digitsValue digits) := by
  have hbytes := ascii_digits hdigits
  have hline : before ++ leftBrace :: (Utf8.bytes digits ++ [rightBrace, carriageReturn, lineFeed]) =
      ((before ++ leftBrace :: Utf8.bytes digits) ++ [rightBrace]) ++ [carriageReturn, lineFeed] := by simp
  have hplus : (stripBack [plusSign] (before ++ leftBrace :: Utf8.bytes digits)).getD (before ++ leftBrace :: Utf8.bytes digits) =
      before ++ leftBrace :: Utf8.bytes digits := by
    rw [stripBack_none, Option.getD_none]
    rw [List.getLast?_append_of_ne_nil _ (List.cons_ne_nil _ _)]
    intro hlast
    rcases List.mem_cons.mp (List.mem_of_getLast? hlast) with hbrace | hdigit
    · exact absurd hbrace (by decide)
    · exact (digitByte_ne (hbytes _ hdigit)).2.2.1 rfl
  have hnonempty : Utf8.bytes digits ≠ [] := by
    intro hnil
    have hsize := Utf8.length_bytes (s := digits)
    rw [hnil] at hsize
    exact hne (Utf8.size_eq_zero hsize.symm)
  have hrun : ((before ++ leftBrace :: Utf8.bytes digits).reverse.takeWhile fun b => b ≠ leftBrace).reverse =
      Utf8.bytes digits := by
    have hkeep : ∀ b ∈ (Utf8.bytes digits).reverse, decide (b ≠ leftBrace) = true :=
      fun b hb => decide_eq_true (digitByte_ne (hbytes b (List.mem_reverse.mp hb))).1
    rw [List.reverse_append, List.reverse_cons, List.append_assoc, List.takeWhile_append_of_pos hkeep,
      List.singleton_append, List.takeWhile_cons_of_neg (by simp), List.append_nil, List.reverse_reverse]
  unfold trailingLiteralLen
  rw [hline, strip_lineEnd]
  dsimp only
  rw [stripBack_append, Option.getD_some, stripBack_append]
  dsimp only
  rw [hplus, if_pos (by simp), hrun, if_neg (by simp [hnonempty, List.all_eq_true.mpr hbytes]), chars_of_digits hdigits,
    parseUnsigned_digits hne hdigits hsmall]

/-- A line that may be cut here: it has no line feed, and every brace in it has a quote after it. -/
structure Quiet (text : Bytes) : Prop where
  noFeed : lineFeed ∉ text
  closed : ∀ before after, text = before ++ leftBrace :: after → quote ∈ after

theorem Quiet.announces_none (h : Quiet text) : trailingLiteralLen (text ++ [carriageReturn, lineFeed]) = none := by
  unfold trailingLiteralLen
  rw [strip_lineEnd]
  dsimp only
  rw [stripBack_append, Option.getD_some]
  split
  · rfl
  · rename_i inside hinside
    split
    · rename_i hbrace
      split
      · rfl
      · rename_i hdigits
        exfalso
        simp only [Bool.or_eq_true, decide_eq_true_eq, not_or, Bool.not_eq_true', Bool.not_eq_false, List.all_eq_true] at hdigits
        generalize hstripped : (stripBack [plusSign] inside).getD inside = stripped at hbrace hdigits
        obtain ⟨back, hback⟩ : ∃ back, text = stripped ++ back ∧ quote ∉ back := by
          have htext := eq_append_of_stripBack hinside
          cases hplus : stripBack [plusSign] inside with
          | none =>
            rw [hplus, Option.getD_none] at hstripped
            exact ⟨[rightBrace], by rw [htext, hstripped], by decide⟩
          | some front =>
            rw [hplus, Option.getD_some] at hstripped
            refine ⟨[plusSign, rightBrace], ?_, by decide⟩
            rw [htext, eq_append_of_stripBack hplus, hstripped]
            simp
        obtain ⟨before, after, hsplit, hafter⟩ : ∃ before after, stripped = before ++ leftBrace :: after ∧
            after = (stripped.reverse.takeWhile fun b => b ≠ leftBrace).reverse := by
          obtain ⟨front, back, hreverse, hfront⟩ := List.eq_append_cons_of_mem (List.mem_reverse.mpr hbrace)
          have hkeep : ∀ b ∈ front, decide (b ≠ leftBrace) = true := fun b hb => decide_eq_true fun he => hfront (he ▸ hb)
          refine ⟨back.reverse, front.reverse, ?_, ?_⟩
          · rw [← List.reverse_reverse stripped, hreverse]
            simp
          · rw [hreverse, List.takeWhile_append_of_pos hkeep, List.takeWhile_cons_of_neg (by simp), List.append_nil]
        have hquote := h.closed before (after ++ back) (by rw [hback.1, hsplit]; simp)
        rcases List.mem_append.mp hquote with hmem | hmem
        · rw [hafter] at hmem
          exact (digitByte_ne (hdigits.2 quote hmem)).2.1 rfl
        · exact hback.2 hmem
    · rfl

end Announced

/-! ## One line -/

section Lines

variable {limit fuel : Nat} {items : List Item} {out out' text line rest : Bytes} {chunks : List Bytes}

/-- Reading goes on over a text: to a line of which some may not be read yet. -/
def Frames (out : Bytes) : Prop :=
  ∀ before, Quiet before → ∀ fuel line chunks rest, Flowing chunks → chunks.flatten = before ++ out ++ rest →
    chunks.flatten.length < fuel → ∃ before' line' chunks' fuel', Quiet before' ∧ Flowing chunks' ∧
      chunks'.flatten = before' ++ rest ∧ line' ++ before' = line ++ before ++ out ∧ chunks'.flatten.length < fuel' ∧
      readLineFrom fuel line chunks = readLineFrom fuel' line' chunks'

theorem Frames.append (h : Frames out) (h' : Frames out') : Frames (out ++ out') := by
  intro before hbefore fuel line chunks rest hflowing hstream hfuel
  obtain ⟨before₁, line₁, chunks₁, fuel₁, hquiet₁, hflow₁, hstream₁, hline₁, hfuel₁, hread₁⟩ :=
    h before hbefore fuel line chunks (out' ++ rest) hflowing (by rw [hstream]; simp) hfuel
  obtain ⟨before₂, line₂, chunks₂, fuel₂, hquiet₂, hflow₂, hstream₂, hline₂, hfuel₂, hread₂⟩ :=
    h' before₁ hquiet₁ fuel₁ line₁ chunks₁ rest hflow₁ (by rw [hstream₁]; simp) hfuel₁
  refine ⟨before₂, line₂, chunks₂, fuel₂, hquiet₂, hflow₂, hstream₂, ?_, hfuel₂, hread₁.trans hread₂⟩
  rw [hline₂, hline₁]
  simp

theorem frames_of_quiet (h : ∀ before, Quiet before → Quiet (before ++ out)) : Frames out := by
  intro before hbefore fuel line chunks rest hflowing hstream hfuel
  refine ⟨before ++ out, line, chunks, fuel, h before hbefore, hflowing, hstream, ?_, hfuel, rfl⟩
  rw [List.append_assoc]

theorem frames_plain (hfeed : lineFeed ∉ out) (hbrace : leftBrace ∉ out) : Frames out := by
  apply frames_of_quiet
  intro before hbefore
  refine ⟨by simp [hbefore.noFeed, hfeed], ?_⟩
  intro front back hsplit
  rcases List.append_eq_append_iff.mp hsplit with ⟨gap, hfront, hback⟩ | ⟨gap, hfront, hback⟩
  · exact absurd (by rw [hback]; simp) hbrace
  · cases gap with
    | nil =>
      have hout : out = leftBrace :: back := hback.symm
      exact absurd (hout ▸ List.mem_cons_self) hbrace
    | cons b gap =>
      obtain ⟨rfl, rfl⟩ := List.cons.inj hback
      exact List.mem_append_left _ (hbefore.closed front gap hfront)

theorem frames_quoted (hfeed : lineFeed ∉ text) : Frames (quote :: (text ++ [quote])) := by
  apply frames_of_quiet
  intro before hbefore
  have hnot : lineFeed ≠ quote := by decide
  refine ⟨by simp [hbefore.noFeed, hfeed, hnot], ?_⟩
  intro front back hsplit
  have hlast : (front ++ leftBrace :: back).getLast? = some quote := by
    rw [← hsplit, ← List.cons_append, ← List.append_assoc]
    exact List.getLast?_concat
  rw [List.getLast?_append_of_ne_nil _ (List.cons_ne_nil _ _)] at hlast
  rcases List.mem_cons.mp (List.mem_of_getLast? hlast) with hbrace | hmem
  · exact absurd hbrace (by decide)
  · exact hmem

theorem frames_literal {digits : List Char} {bytes : Bytes} (hne : digits ≠ []) (hdigits : IsDigits digits)
    (hcount : digitsValue digits = bytes.length) (hlimit : bytes.length ≤ maxLiteral) :
    Frames (leftBrace :: (Utf8.bytes digits ++ rightBrace :: carriageReturn :: lineFeed :: bytes)) := by
  intro before hbefore fuel line chunks rest hflowing hstream hfuel
  cases fuel with
  | zero => exact nomatch hfuel
  | succ fuel =>
    have hfeed : lineFeed ∉ before ++ leftBrace :: (Utf8.bytes digits ++ [rightBrace, carriageReturn]) := by
      have hdigit : lineFeed ∉ Utf8.bytes digits := fun hmem => (digitByte_ne (ascii_digits hdigits _ hmem)).2.2.2 rfl
      have h1 : lineFeed ≠ leftBrace := by decide
      have h2 : lineFeed ≠ rightBrace := by decide
      have h3 : lineFeed ≠ carriageReturn := by decide
      simp [hbefore.noFeed, hdigit, h1, h2, h3]
    have hheader : before ++ leftBrace :: (Utf8.bytes digits ++ [rightBrace, carriageReturn]) ++ [lineFeed] =
        before ++ leftBrace :: (Utf8.bytes digits ++ [rightBrace, carriageReturn, lineFeed]) := by simp
    obtain ⟨left, hread, hleft, hflow⟩ := readUntil_flatten hflowing hfeed
      (show chunks.flatten = _ ++ lineFeed :: (bytes ++ rest) by rw [hstream]; simp)
    obtain ⟨left', hexact, hleft', hflow'⟩ := readExact_flatten hflow hleft
    have hsmall : digitsValue digits < 2 ^ 64 := by
      have hcap : maxLiteral < 2 ^ 64 := by decide
      omega
    refine ⟨[], line ++ (before ++ leftBrace :: (Utf8.bytes digits ++ [rightBrace, carriageReturn, lineFeed])) ++ bytes,
      left', fuel, ⟨List.not_mem_nil, ?_⟩, hflow', hleft', ?_, ?_, ?_⟩
    · intro front back hsplit
      exact absurd hsplit.symm (List.append_ne_nil_of_right_ne_nil _ (List.cons_ne_nil _ _))
    · simp
    · rw [hleft']
      rw [hstream] at hfuel
      simp only [List.length_append, List.length_cons] at hfuel
      omega
    · rw [readLineFrom, hread, hheader]
      dsimp only
      rw [if_neg (List.append_ne_nil_of_right_ne_nil _ (List.cons_ne_nil _ _)),
        trailingLiteralLen_header hne hdigits hsmall]
      dsimp only
      rw [hcount, if_neg (by omega), hexact]

theorem noFeed_escapeQuoted {text : List Char} (h : ∀ c ∈ text, c ≠ '\r' ∧ c ≠ '\n') :
    lineFeed ∉ Utf8.bytes (escapeQuoted text) := by
  intro hmem
  obtain ⟨c, hc, hbyte⟩ := List.mem_flatMap.mp hmem
  obtain ⟨d, hd, hcd⟩ := List.mem_flatMap.mp hc
  have hcode : c = '\n' := by
    by_cases hlow : c.toNat < 128
    · rw [Utf8.encode_of_lt hlow, List.mem_singleton] at hbyte
      have hnat := congrArg UInt8.toNat hbyte
      rw [Utf8.ascii_toNat hlow] at hnat
      exact Char.toNat_inj.mp hnat.symm
    · have hhigh := Utf8.high_of_le (Nat.le_of_not_lt hlow) _ hbyte
      exact absurd hhigh (by decide)
  rw [hcode] at hcd
  split at hcd
  · simp only [List.mem_cons, List.not_mem_nil, or_false] at hcd
    rcases hcd with hback | hself
    · exact absurd hback (by decide)
    · exact (h d hd).2 hself.symm
  · exact (h d hd).2 (List.mem_singleton.mp hcd).symm

theorem plain_atom {text : List Char} (h : IsAtom text) : lineFeed ∉ Utf8.bytes text ∧ leftBrace ∉ Utf8.bytes text := by
  have hlow : ∀ c ∈ text, c.toNat < 128 := fun c hc => by
    have hvisible := h.2 c hc
    omega
  rw [Utf8.bytes_eq_map hlow]
  constructor
  · intro hmem
    obtain ⟨c, hc, hsame⟩ := List.mem_map.mp hmem
    have hnat := congrArg UInt8.toNat hsame
    rw [Utf8.ascii_toNat (hlow c hc)] at hnat
    have hvisible := (h.2 c hc).1
    have hcode : lineFeed.toNat = 10 := rfl
    omega
  · intro hmem
    obtain ⟨c, hc, hsame⟩ := List.mem_map.mp hmem
    exact ascii_ne (d := '{') (hlow c hc) (by decide) (h.2 c hc).2.2.2.2.1 hsame

theorem Written.frames (h : Written maxLiteral items out) : Frames out := by
  induction h with
  | none => exact frames_plain List.not_mem_nil List.not_mem_nil
  | nil text h hnil => exact frames_plain (plain_atom h).1 (plain_atom h).2
  | atom text h hnil => exact frames_plain (plain_atom h).1 (plain_atom h).2
  | quoted text h => exact frames_quoted (noFeed_escapeQuoted h)
  | literal digits bytes hne hdigits hcount hlimit => exact frames_literal hne hdigits hcount hlimit
  | list h ih =>
    have hopen : Frames [leftParen] := frames_plain (by decide) (by decide)
    have hclose : Frames [rightParen] := frames_plain (by decide) (by decide)
    exact hopen.append (ih.append hclose)
  | spaced h h' ih ih' =>
    have hspace : Frames [space] := frames_plain (by decide) (by decide)
    exact ih.append (hspace.append ih')
  | lists h h' ih ih' => exact ih.append ih'

/-- What an untagged response begins with. -/
def star : Bytes := [42, 32]

theorem quiet_star : Quiet star := by
  refine ⟨by decide, ?_⟩
  intro before after hsplit
  have hmem : leftBrace ∈ star := by
    rw [hsplit]
    simp
  exact absurd hmem (by decide)

theorem readLine_written (h : Written maxLiteral items out) (hflowing : Flowing chunks)
    (hstream : chunks.flatten = star ++ out ++ ([carriageReturn, lineFeed] ++ rest)) :
    ∃ left, readLine chunks = some (.ok (star ++ out ++ [carriageReturn, lineFeed], left)) ∧ left.flatten = rest := by
  obtain ⟨before, line, chunks', fuel, hquiet, hflow, hstream', hline, hfuel, hread⟩ :=
    h.frames star quiet_star (chunks.flatten.length + 1) [] chunks _ hflowing hstream (Nat.lt_succ_self _)
  have hreturn : lineFeed ∉ before ++ [carriageReturn] := by
    have hnot : lineFeed ≠ carriageReturn := by decide
    simp [hquiet.noFeed, hnot]
  obtain ⟨left, huntil, hleft, -⟩ := readUntil_flatten hflow hreturn
    (show chunks'.flatten = _ ++ lineFeed :: rest by rw [hstream']; simp)
  have hends : before ++ [carriageReturn] ++ [lineFeed] = before ++ [carriageReturn, lineFeed] := by simp
  refine ⟨left, ?_, hleft⟩
  unfold readLine
  rw [hread]
  cases fuel with
  | zero => exact nomatch hfuel
  | succ fuel =>
    rw [readLineFrom, huntil, hends]
    dsimp only
    rw [if_neg (List.append_ne_nil_of_right_ne_nil _ (List.cons_ne_nil _ _)), hquiet.announces_none]
    dsimp only
    rw [← List.append_assoc, hline, List.nil_append]

theorem readLine_too_long {digits : List Char} {bytes : Bytes} (hne : digits ≠ []) (hdigits : IsDigits digits)
    (hcount : digitsValue digits = bytes.length) (hlong : maxLiteral < bytes.length) (hsmall : bytes.length < 2 ^ 64)
    (hflowing : Flowing chunks) (hstream : chunks.flatten =
      star ++ leftBrace :: (Utf8.bytes digits ++ rightBrace :: carriageReturn :: lineFeed :: rest)) :
    readLine chunks = some (.error (literalTooLong bytes.length)) := by
  have hfeed : lineFeed ∉ star ++ leftBrace :: (Utf8.bytes digits ++ [rightBrace, carriageReturn]) := by
    have hdigit : lineFeed ∉ Utf8.bytes digits := fun hmem => (digitByte_ne (ascii_digits hdigits _ hmem)).2.2.2 rfl
    have h1 : lineFeed ≠ leftBrace := by decide
    have h2 : lineFeed ≠ rightBrace := by decide
    have h3 : lineFeed ≠ carriageReturn := by decide
    have h4 : lineFeed ∉ star := by decide
    simp [hdigit, h1, h2, h3, h4]
  have hheader : star ++ leftBrace :: (Utf8.bytes digits ++ [rightBrace, carriageReturn]) ++ [lineFeed] =
      star ++ leftBrace :: (Utf8.bytes digits ++ [rightBrace, carriageReturn, lineFeed]) := by simp
  obtain ⟨left, hread, -, -⟩ := readUntil_flatten hflowing hfeed
    (show chunks.flatten = _ ++ lineFeed :: rest by rw [hstream]; simp)
  unfold readLine
  rw [readLineFrom, hread, hheader]
  dsimp only
  rw [if_neg (List.append_ne_nil_of_right_ne_nil _ (List.cons_ne_nil _ _)),
    trailingLiteralLen_header hne hdigits (by rw [hcount]; exact hsmall)]
  dsimp only
  rw [hcount, if_pos hlong]

def oddBody : Bytes := [41, 13, 10, 40, 123, 51, 125]

def oddResponse : List Item := [.atom "1".toList, .atom "FETCH".toList, .list [.atom "BODY[]".toList, .literal oddBody]]

theorem written_atom {text : List Char} (h : (text ≠ [] ∧ ∀ c ∈ text, 0x20 < c.toNat ∧ c.toNat < 0x7f ∧ c ≠ '(' ∧ c ≠ ')' ∧
    c ≠ '{' ∧ c ≠ '"') ∧ isNil text = false) : Written limit [.atom text] (Utf8.bytes text) := .atom text h.1 h.2

end Lines

end Imap
end SyncEngine
