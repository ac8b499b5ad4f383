import SyncEngine.Library.Crlf

/-!
# Reading a message with parts

An entity whose content type names a boundary is cut at the lines that begin with it, as RFC 2046 says: such a line
need not end with the boundary, what is before the first one and after the closing one is no part, and the line break
before a delimiter belongs to it.  An entity without a boundary is a leaf, whose content has its transfer encoding
undone.
-/

namespace SyncEngine
namespace Multipart

open Crlf (Field IsLine unfolded field? lines?)
open Utf8 (encoded)

abbrev Line := List UInt8

/-! ## Base64 -/

def sextet? (b : UInt8) : Option Nat :=
  if 65 ≤ b.toNat ∧ b.toNat ≤ 90 then some (b.toNat - 65)
  else if 97 ≤ b.toNat ∧ b.toNat ≤ 122 then some (b.toNat - 71)
  else if 48 ≤ b.toNat ∧ b.toNat ≤ 57 then some (b.toNat + 4)
  else if b = 43 then some 62
  else if b = 47 then some 63
  else none

/-- The bytes of whole groups of four; only the last group may be padded. -/
def decodeBase64 : List UInt8 → Option (List UInt8)
  | [] => some []
  | [a, b, 61, 61] => do
    let a ← sextet? a
    let b ← sextet? b
    return [UInt8.ofNat (a * 4 + b / 16)]
  | [a, b, c, 61] => do
    let a ← sextet? a
    let b ← sextet? b
    let c ← sextet? c
    return [UInt8.ofNat (a * 4 + b / 16), UInt8.ofNat (b % 16 * 16 + c / 4)]
  | a :: b :: c :: d :: rest => do
    let a ← sextet? a
    let b ← sextet? b
    let c ← sextet? c
    let d ← sextet? d
    let bytes ← decodeBase64 rest
    return UInt8.ofNat (a * 4 + b / 16) :: UInt8.ofNat (b % 16 * 16 + c / 4) :: UInt8.ofNat (c % 4 * 64 + d) :: bytes
  | _ => none

/-! ## Content fields -/

def lower (bs : List UInt8) : List UInt8 := bs.map fun b => if 65 ≤ b ∧ b ≤ 90 then b + 32 else b

def isBlank (b : UInt8) : Bool := b = 32 || b = 9

def trim (bs : List UInt8) : List UInt8 := ((bs.dropWhile isBlank).reverse.dropWhile isBlank).reverse

def isContent (f : Field) : Bool := encoded "content-" <+: lower f.name

def value? (fields : List Field) (name : String) : Option (List UInt8) :=
  (fields.find? fun f => lower f.name = encoded name).map Field.value

inductive Quoting
  | plain
  | quoted
  | escaped
deriving DecidableEq, Repr

def Quoting.next : Quoting → UInt8 → Quoting
  | .plain, b => if b = 34 then .quoted else .plain
  | .quoted, b => if b = 34 then .plain else if b = 92 then .escaped else .quoted
  | .escaped, _ => .quoted

/-- The pieces of a value between the semicolons that no quotes enclose. -/
def segments : Quoting → List UInt8 → List (List UInt8)
  | _, [] => [[]]
  | q, b :: rest =>
    if q = .plain ∧ b = 59 then [] :: segments .plain rest
    else
      match segments (q.next b) rest with
      | [] => [[b]]
      | piece :: pieces => (b :: piece) :: pieces

/-- What a quoted value stands for, from after its opening quote. -/
def unescaped : List UInt8 → List UInt8
  | [] => []
  | 92 :: b :: rest => b :: unescaped rest
  | b :: rest => if b = 34 then [] else b :: unescaped rest

def unquoted : List UInt8 → List UInt8
  | 34 :: rest => unescaped rest
  | value => value

def parameter? (name : String) (piece : List UInt8) : Option (List UInt8) :=
  (splitAtFirst [61] piece).bind fun (n, value) =>
    if lower (trim n) = encoded name then some (unquoted (trim value)) else none

def boundaryOf (value : List UInt8) : Option (List UInt8) :=
  match segments .plain value with
  | [] => none
  | mediaType :: parameters =>
    if encoded "multipart/" <+: lower (trim mediaType) then parameters.findSome? (parameter? "boundary") else none

def boundary? (fields : List Field) : Option (List UInt8) := (value? fields "content-type").bind boundaryOf

def hexValue? (b : UInt8) : Option Nat :=
  if 48 ≤ b ∧ b ≤ 57 then some (b.toNat - 48)
  else if 65 ≤ b ∧ b ≤ 70 then some (b.toNat - 55)
  else if 97 ≤ b ∧ b ≤ 102 then some (b.toNat - 87)
  else none

def percentDecoded : List UInt8 → List UInt8
  | 37 :: a :: b :: rest =>
    match hexValue? a, hexValue? b with
    | some high, some low => UInt8.ofNat (16 * high + low) :: percentDecoded rest
    | _, _ => 37 :: percentDecoded (a :: b :: rest)
  | b :: rest => b :: percentDecoded rest
  | [] => []

/-- A parameter as RFC 2045 writes it, or as RFC 2231 writes one of other characters in UTF-8. -/
def textParameter? (name : String) (piece : List UInt8) : Option (List Char) :=
  (splitAtFirst [61] piece).bind fun (n, value) =>
    if lower (trim n) = encoded name then some (Utf8.lossy (unquoted (trim value)))
    else if lower (trim n) = encoded name ++ [42] ∧ encoded "utf-8''" <+: lower (trim value) then
      some (Utf8.lossy (percentDecoded ((trim value).drop 7)))
    else none

def textOf (name : String) (value : List UInt8) : Option (List Char) :=
  (segments .plain value).tail.findSome? (textParameter? name)

/-- What a value names before its parameters. -/
def kindOf (value : List UInt8) : List UInt8 := trim ((segments .plain value).headD [])

def isBase64 (fields : List Field) : Bool :=
  (value? fields "content-transfer-encoding").any fun v => lower (trim v) = encoded "base64"

/-! ## Entities -/

structure Entity where
  fields : List Field
  body : List Line
deriving DecidableEq, Repr

/-- The entity on some lines.  Only its content fields have a meaning to it. -/
def entity (ls : List Line) : Entity where
  fields := ((unfolded (ls.takeWhile (· ≠ []))).filterMap field?).filter isContent
  body := (ls.dropWhile (· ≠ [])).drop 1

structure Leaf where
  fields : List Field
  content : List UInt8
deriving DecidableEq, Repr

/-- Lines with a line break between each two. -/
def joined : List Line → List UInt8
  | [] => []
  | [l] => l
  | l :: ls => l ++ 13 :: 10 :: joined ls

def Entity.content? (e : Entity) : Option (List UInt8) :=
  if isBase64 e.fields then decodeBase64 e.body.flatten else some (joined e.body)

def Entity.leaf? (e : Entity) : Option Leaf := e.content?.map fun content => ⟨e.fields, content⟩

def opens (boundary l : Line) : Bool := 45 :: 45 :: boundary <+: l

def closes (boundary l : Line) : Bool := 45 :: 45 :: boundary ++ [45, 45] <+: l

def partsFrom (boundary : Line) : List Line → Option (List Line × List (List Line))
  | [] => none
  | l :: ls =>
    if closes boundary l then some ([], [])
    else if opens boundary l then (partsFrom boundary ls).map fun (part, parts) => ([], part :: parts)
    else (partsFrom boundary ls).map fun (part, parts) => (l :: part, parts)

def parts (boundary : Line) (ls : List Line) : Option (List (List Line)) := (partsFrom boundary ls).map Prod.snd

/-- The leaves of an entity nested at most so deep. -/
def leaves : Nat → Entity → Option (List Leaf)
  | 0, _ => none
  | n + 1, e =>
    match boundary? e.fields with
    | none => e.leaf?.map fun leaf => [leaf]
    | some boundary =>
      ((parts boundary e.body).bind fun ps => ps.mapM fun p => leaves n (entity p)).map List.flatten

def read (message : List UInt8) : Option (List Leaf) := (lines? message).bind fun ls => leaves ls.length (entity ls)

/-! ## Parameters -/

section Parameters

variable {q : Quoting} {b : UInt8} {bs rest piece : List UInt8} {pieces : List (List UInt8)}

theorem segments_cons (h : ¬(q = .plain ∧ b = 59)) (hrest : segments (q.next b) rest = piece :: pieces) :
    segments q (b :: rest) = (b :: piece) :: pieces := by
  rw [segments, if_neg h, hrest]

theorem segments_split (rest : List UInt8) : segments .plain (59 :: rest) = [] :: segments .plain rest := by
  rw [segments, if_pos ⟨rfl, rfl⟩]

theorem segments_plain (h : 34 ∉ bs ∧ 59 ∉ bs) (hrest : segments .plain rest = piece :: pieces) :
    segments .plain (bs ++ rest) = (bs ++ piece) :: pieces := by
  induction bs with
  | nil => exact hrest
  | cons b bs ih =>
    have hb : b ≠ 34 ∧ b ≠ 59 := ⟨fun e => h.1 (e ▸ List.mem_cons_self), fun e => h.2 (e ▸ List.mem_cons_self)⟩
    have hbs : 34 ∉ bs ∧ 59 ∉ bs := ⟨fun e => h.1 (List.mem_cons_of_mem b e), fun e => h.2 (List.mem_cons_of_mem b e)⟩
    apply segments_cons (fun hsplit => hb.2 hsplit.2)
    rw [Quoting.next, if_neg hb.1]
    exact ih hbs

theorem segments_quoted (h : 34 ∉ bs ∧ 92 ∉ bs) (hrest : segments .quoted rest = piece :: pieces) :
    segments .quoted (bs ++ rest) = (bs ++ piece) :: pieces := by
  induction bs with
  | nil => exact hrest
  | cons b bs ih =>
    have hb : b ≠ 34 ∧ b ≠ 92 := ⟨fun e => h.1 (e ▸ List.mem_cons_self), fun e => h.2 (e ▸ List.mem_cons_self)⟩
    have hbs : 34 ∉ bs ∧ 92 ∉ bs := ⟨fun e => h.1 (List.mem_cons_of_mem b e), fun e => h.2 (List.mem_cons_of_mem b e)⟩
    have hquoted : ¬(Quoting.quoted = .plain ∧ b = 59) := by
      rintro ⟨hq, -⟩
      exact nomatch hq
    apply segments_cons hquoted
    rw [Quoting.next, if_neg hb.1, if_neg hb.2]
    exact ih hbs

theorem unescaped_append (h : 34 ∉ bs ∧ 92 ∉ bs) (rest : List UInt8) : unescaped (bs ++ rest) = bs ++ unescaped rest := by
  induction bs with
  | nil => rfl
  | cons b bs ih =>
    have hb : b ≠ 34 ∧ b ≠ 92 := ⟨fun e => h.1 (e ▸ List.mem_cons_self), fun e => h.2 (e ▸ List.mem_cons_self)⟩
    have hbs : 34 ∉ bs ∧ 92 ∉ bs := ⟨fun e => h.1 (List.mem_cons_of_mem b e), fun e => h.2 (List.mem_cons_of_mem b e)⟩
    rw [List.cons_append, unescaped, if_neg hb.1, ih hbs, List.cons_append]
    intro _ _ he
    exact absurd he hb.2

theorem trim_quoted (bs : List UInt8) : trim (34 :: bs ++ [34]) = 34 :: bs ++ [34] := by
  have hquote : isBlank 34 = false := by decide
  rw [trim, List.cons_append, List.dropWhile_cons_of_neg (by rw [hquote]; decide), ← List.cons_append,
    List.reverse_append, List.reverse_singleton, List.singleton_append,
    List.dropWhile_cons_of_neg (by rw [hquote]; decide), List.reverse_cons, List.reverse_reverse]

theorem trim_of_free (h : ∀ b ∈ bs, isBlank b = false) : trim bs = bs := by
  have hkeep : ∀ l : List UInt8, (∀ b ∈ l, isBlank b = false) → l.dropWhile isBlank = l := by
    intro l hl
    cases l with
    | nil => rfl
    | cons b l => exact List.dropWhile_cons_of_neg (by rw [hl b List.mem_cons_self]; decide)
  rw [trim, hkeep bs h, hkeep bs.reverse fun b hb => h b (List.mem_reverse.mp hb), List.reverse_reverse]

theorem trim_cons_blank (h : isBlank b = true) : trim (b :: bs) = trim bs := by
  rw [trim, List.dropWhile_cons_of_pos h, trim]

theorem boundaryOf_quoted {mediaType name boundary : List UInt8} (htype : 34 ∉ mediaType ∧ 59 ∉ mediaType)
    (hmultipart : encoded "multipart/" <+: lower (trim mediaType)) (hname : 34 ∉ name ∧ 59 ∉ name ∧ 61 ∉ name)
    (hboundary : lower (trim name) = encoded "boundary") (hb : 34 ∉ boundary ∧ 92 ∉ boundary) :
    boundaryOf (mediaType ++ 59 :: (name ++ 61 :: 34 :: (boundary ++ [34]))) = some boundary := by
  have hend : segments .quoted [34] = [[34]] := by decide
  have hquoted := segments_quoted hb hend
  have hopen : segments .plain (61 :: 34 :: (boundary ++ [34])) = [61 :: 34 :: (boundary ++ [34])] :=
    segments_cons (by decide) (segments_cons (by decide) hquoted)
  have hparameter := segments_plain ⟨hname.1, hname.2.1⟩ hopen
  have hall := segments_plain htype (segments_split (name ++ 61 :: 34 :: (boundary ++ [34])))
  have hsplit : splitAtFirst [61] (name ++ 61 :: 34 :: (boundary ++ [34])) = some (name, 34 :: (boundary ++ [34])) :=
    splitAtFirst_eq_some_iff.mpr ⟨rfl, fun d hd e => hname.2.2 (e ▸ hd)⟩
  have htrim : trim (34 :: (boundary ++ [34])) = 34 :: (boundary ++ [34]) := trim_quoted boundary
  rw [boundaryOf, hall, hparameter]
  dsimp only
  rw [List.append_nil, if_pos hmultipart, List.findSome?_cons, parameter?, hsplit, Option.bind_some]
  dsimp only
  rw [if_pos hboundary, htrim, unquoted, unescaped_append hb]
  exact congrArg some (List.append_nil boundary)

theorem boundaryOf_other {mediaType name value : List UInt8} (htype : 34 ∉ mediaType ∧ 59 ∉ mediaType)
    (hone : segments .plain (name ++ 61 :: value) = [name ++ 61 :: value]) (hname : 61 ∉ name)
    (hother : lower (trim name) ≠ encoded "boundary") :
    boundaryOf (mediaType ++ 59 :: (name ++ 61 :: value)) = none := by
  have hall := segments_plain htype (segments_split (name ++ 61 :: value))
  have hsplit : splitAtFirst [61] (name ++ 61 :: value) = some (name, value) :=
    splitAtFirst_eq_some_iff.mpr ⟨rfl, fun d hd e => hname (e ▸ hd)⟩
  rw [boundaryOf, hall, hone]
  dsimp only
  rw [List.append_nil]
  split
  · rw [List.findSome?_cons, parameter?, hsplit, Option.bind_some]
    dsimp only
    rw [if_neg hother]
    rfl
  · rfl

theorem textOf_parameter {name : String} {kind : List UInt8} (hkind : 34 ∉ kind ∧ 59 ∉ kind)
    (hone : segments .plain piece = [piece]) :
    textOf name (kind ++ 59 :: piece) = textParameter? name piece ∧ kindOf (kind ++ 59 :: piece) = trim kind := by
  have hall := segments_plain hkind (segments_split piece)
  rw [hone, List.append_nil] at hall
  rw [textOf, kindOf, hall]
  refine ⟨?_, rfl⟩
  rw [List.tail_cons, List.findSome?_cons]
  cases textParameter? name piece with
  | none => rfl
  | some text => rfl

theorem boundaryOf_single {mediaType rest : List UInt8} (htype : 34 ∉ mediaType ∧ 59 ∉ mediaType)
    (hsingle : ¬ encoded "multipart/" <+: lower (trim mediaType)) : boundaryOf (mediaType ++ 59 :: rest) = none := by
  have hall := segments_plain htype (segments_split rest)
  rw [boundaryOf, hall]
  dsimp only
  rw [List.append_nil, if_neg hsingle]

end Parameters

/-! ## Joined lines -/

theorem joined_break {ls : List Line} (h : ls ≠ []) : joined ls ++ [13, 10] = Crlf.join ls := by
  induction ls with
  | nil => exact absurd rfl h
  | cons l ls ih =>
    cases ls with
    | nil => rw [joined, Crlf.join_cons, Crlf.join_nil]
    | cons l' ls =>
      rw [joined, Crlf.join_cons, ← ih (List.cons_ne_nil _ _)]
      · simp
      · exact List.cons_ne_nil _ _

theorem mem_of_joined_eq {ls ls' : List Line} (h : ∀ l ∈ ls, IsLine l) (h' : ∀ l ∈ ls', IsLine l)
    (he : joined ls = joined ls') {l : Line} (hl : l ∈ ls) (hne : l ≠ []) : l ∈ ls' := by
  have hls : ls ≠ [] := List.ne_nil_of_mem hl
  by_cases hnil : ls' = []
  · rw [hnil, joined] at he
    have hjoin := joined_break hls
    rw [he, List.nil_append] at hjoin
    have hlines := Crlf.lines?_join h
    rw [← hjoin] at hlines
    have hone : ls = [[]] := (Option.some.inj hlines).symm
    rw [hone] at hl
    exact absurd (List.mem_singleton.mp hl) hne
  · have hlines := Crlf.lines?_join h
    rw [← joined_break hls, he, joined_break hnil, Crlf.lines?_join h'] at hlines
    rw [Option.some.inj hlines]
    exact hl

/-! ## Delimiters -/

section Delimiters

variable {boundary l : Line} {ls part : List Line} {ps : List (List Line)}

theorem opens_of_closes (h : closes boundary l = true) : opens boundary l = true := by
  rw [closes, decide_eq_true_eq] at h
  rw [opens, decide_eq_true_eq]
  exact (List.prefix_append _ _).trans h

theorem closes_delimiter : closes boundary (45 :: 45 :: boundary) = false := by
  rw [closes, decide_eq_false_iff_not]
  intro h
  have hlength := h.length_le
  simp only [List.length_append, List.length_cons, List.length_nil] at hlength
  omega

theorem partsFrom_append (h : ∀ l ∈ part, opens boundary l = false) (rest : List Line) :
    partsFrom boundary (part ++ rest) = (partsFrom boundary rest).map fun (p, ps) => (part ++ p, ps) := by
  induction part with
  | nil =>
    rw [List.nil_append]
    cases partsFrom boundary rest <;> rfl
  | cons l part ih =>
    have hl := h l List.mem_cons_self
    have hclose : closes boundary l = false := by
      rw [Bool.eq_false_iff]
      intro hc
      exact Bool.eq_false_iff.mp hl (opens_of_closes hc)
    rw [List.cons_append, partsFrom, hclose, hl, ih fun l' hl' => h l' (List.mem_cons_of_mem l hl')]
    cases partsFrom boundary rest <;> rfl

theorem parts_written (h : ∀ p ∈ ps, ∀ l ∈ p, opens boundary l = false) :
    parts boundary ((ps.flatMap fun p => (45 :: 45 :: boundary) :: p) ++ [45 :: 45 :: boundary ++ [45, 45]]) =
      some ps := by
  have hfrom : ∀ ps : List (List Line), (∀ p ∈ ps, ∀ l ∈ p, opens boundary l = false) →
      partsFrom boundary ((ps.flatMap fun p => (45 :: 45 :: boundary) :: p) ++ [45 :: 45 :: boundary ++ [45, 45]]) =
        some ([], ps) := by
    intro ps
    induction ps with
    | nil =>
      intro _
      have hclose : closes boundary (45 :: 45 :: boundary ++ [45, 45]) = true := decide_eq_true (List.prefix_refl _)
      rw [List.flatMap_nil, List.nil_append, partsFrom, hclose]
      rfl
    | cons p ps ih =>
      intro hps
      have hopen : opens boundary (45 :: 45 :: boundary) = true := decide_eq_true (List.prefix_refl _)
      rw [List.flatMap_cons, List.cons_append, List.cons_append, partsFrom, closes_delimiter, hopen, List.append_assoc,
        partsFrom_append (hps p List.mem_cons_self), ih fun q hq => hps q (List.mem_cons_of_mem p hq)]
      simp
  rw [parts, hfrom ps h]
  rfl

theorem partsFrom_lines (h : partsFrom boundary ls = some (part, ps)) :
    (∀ l ∈ part, l ∈ ls ∧ opens boundary l = false) ∧ ∀ p ∈ ps, ∀ l ∈ p, l ∈ ls ∧ opens boundary l = false := by
  induction ls generalizing part ps with
  | nil => exact nomatch h
  | cons l ls ih =>
    rw [partsFrom] at h
    split at h
    · obtain ⟨rfl, rfl⟩ := Prod.mk.inj (Option.some.inj h)
      exact ⟨by simp, by simp⟩
    · split at h
      · obtain ⟨⟨q, qs⟩, hq, he⟩ := Option.map_eq_some_iff.mp h
        obtain ⟨rfl, rfl⟩ := Prod.mk.inj he
        obtain ⟨hfirst, hothers⟩ := ih hq
        refine ⟨by simp, fun p hp l' hl' => ?_⟩
        rcases List.mem_cons.mp hp with rfl | hp
        · exact ⟨List.mem_cons_of_mem l (hfirst l' hl').1, (hfirst l' hl').2⟩
        · exact ⟨List.mem_cons_of_mem l (hothers p hp l' hl').1, (hothers p hp l' hl').2⟩
      · rename_i hopen
        obtain ⟨⟨q, qs⟩, hq, he⟩ := Option.map_eq_some_iff.mp h
        obtain ⟨rfl, rfl⟩ := Prod.mk.inj he
        obtain ⟨hfirst, hothers⟩ := ih hq
        refine ⟨fun l' hl' => ?_, fun p hp l' hl' => ?_⟩
        · rcases List.mem_cons.mp hl' with rfl | hl'
          · exact ⟨List.mem_cons_self, Bool.eq_false_iff.mpr hopen⟩
          · exact ⟨List.mem_cons_of_mem l (hfirst l' hl').1, (hfirst l' hl').2⟩
        · exact ⟨List.mem_cons_of_mem l (hothers p hp l' hl').1, (hothers p hp l' hl').2⟩

theorem parts_lines (h : parts boundary ls = some ps) : ∀ p ∈ ps, ∀ l ∈ p, l ∈ ls ∧ opens boundary l = false := by
  obtain ⟨⟨q, qs⟩, hq, rfl⟩ := Option.map_eq_some_iff.mp h
  exact (partsFrom_lines hq).2

end Delimiters

/-! ## Leaves -/

section Leaves

variable {e : Entity} {n : Nat} {out : List Leaf} {leaf : Leaf} {boundary : Line}

theorem mem_entity_body {ls : List Line} {l : Line} (h : l ∈ (entity ls).body) : l ∈ ls :=
  (List.dropWhile_sublist _).subset (List.mem_of_mem_drop h)

theorem leaves_leaf (hb : boundary? e.fields = none) : leaves (n + 1) e = e.leaf?.map fun leaf => [leaf] := by
  rw [leaves, hb]

theorem leaves_parts {ps : List (List Line)} (hb : boundary? e.fields = some boundary)
    (hp : parts boundary e.body = some ps) :
    leaves (n + 1) e = (ps.mapM fun p => leaves n (entity p)).map List.flatten := by
  rw [leaves, hb]
  dsimp only
  rw [hp, Option.bind_some]

theorem exists_part (hb : boundary? e.fields = some boundary) (h : leaves (n + 1) e = some out) (hleaf : leaf ∈ out) :
    ∃ p, (∀ l ∈ p, l ∈ e.body ∧ opens boundary l = false) ∧ ∃ inner, leaves n (entity p) = some inner ∧ leaf ∈ inner := by
  rw [leaves, hb] at h
  dsimp only at h
  obtain ⟨inners, hbind, rfl⟩ := Option.map_eq_some_iff.mp h
  obtain ⟨ps, hps, hmap⟩ := Option.bind_eq_some_iff.mp hbind
  obtain ⟨inner, hinner, hmem⟩ := List.mem_flatten.mp hleaf
  rw [Fallible.mapM_some_iff] at hmap
  have hlines := parts_lines hps
  clear hps hleaf h hbind
  induction hmap with
  | nil => exact absurd hinner List.not_mem_nil
  | @cons p inner' ps inners hp _ ih =>
    rcases List.mem_cons.mp hinner with rfl | hinner
    · exact ⟨p, hlines p List.mem_cons_self, inner, hp, hmem⟩
    · exact ih hinner fun q hq => hlines q (List.mem_cons_of_mem p hq)

theorem leaves_from (h : leaves n e = some out) (hleaf : leaf ∈ out) :
    ∃ e', e'.leaf? = some leaf ∧ (e' = e ∨ ∃ ls, e' = entity ls ∧ ∀ l ∈ ls, l ∈ e.body) := by
  induction n generalizing e out with
  | zero => exact nomatch h
  | succ n ih =>
    cases hb : boundary? e.fields with
    | none =>
      rw [leaves_leaf hb] at h
      obtain ⟨leaf', hleaf', rfl⟩ := Option.map_eq_some_iff.mp h
      obtain rfl := List.mem_singleton.mp hleaf
      exact ⟨e, hleaf', .inl rfl⟩
    | some boundary =>
      obtain ⟨p, hp, inner, hinner, hmem⟩ := exists_part hb h hleaf
      obtain ⟨e', he', hfrom⟩ := ih hinner hmem
      rcases hfrom with rfl | ⟨ls, rfl, hls⟩
      · exact ⟨_, he', .inr ⟨p, rfl, fun l hl => (hp l hl).1⟩⟩
      · exact ⟨_, he', .inr ⟨ls, rfl, fun l hl => (hp l (mem_entity_body (hls l hl))).1⟩⟩

theorem leaves_within (hb : boundary? e.fields = some boundary) (h : leaves n e = some out) (hleaf : leaf ∈ out) :
    ∃ ls, (entity ls).leaf? = some leaf ∧ ∀ l ∈ ls, l ∈ e.body ∧ opens boundary l = false := by
  cases n with
  | zero => exact nomatch h
  | succ n =>
    obtain ⟨p, hp, inner, hinner, hmem⟩ := exists_part hb h hleaf
    obtain ⟨e', he', hfrom⟩ := leaves_from hinner hmem
    rcases hfrom with rfl | ⟨ls, rfl, hls⟩
    · exact ⟨p, he', hp⟩
    · exact ⟨ls, he', fun l hl => hp l (mem_entity_body (hls l hl))⟩

theorem content_of_leaf? (h : e.leaf? = some leaf) (h64 : isBase64 leaf.fields = false) :
    leaf.content = joined e.body := by
  obtain ⟨content, hcontent, rfl⟩ := Option.map_eq_some_iff.mp h
  have h64' : isBase64 e.fields = false := h64
  rw [Entity.content?, h64'] at hcontent
  exact (Option.some.inj hcontent).symm

theorem delimiter_notMem_leaf {ls : List Line} (hb : boundary? e.fields = some boundary) (h : leaves n e = some out)
    (hbody : ∀ l ∈ e.body, IsLine l) (hleaf : leaf ∈ out) (h64 : isBase64 leaf.fields = false)
    (hlines : ∀ l ∈ ls, IsLine l) (hcontent : leaf.content = joined ls) : ∀ l ∈ ls, opens boundary l = false := by
  obtain ⟨ls', hls', hfree⟩ := leaves_within hb h hleaf
  have hjoined := content_of_leaf? hls' h64
  intro l hl
  rw [Bool.eq_false_iff]
  intro hopen
  have hne : l ≠ [] := by
    rintro rfl
    exact absurd hopen (by simp [opens])
  have hmem : l ∈ (entity ls').body :=
    mem_of_joined_eq hlines (fun l' hl' => hbody l' (hfree l' (mem_entity_body hl')).1) (hcontent.symm.trans hjoined) hl hne
  exact Bool.eq_false_iff.mp (hfree l (mem_entity_body hmem)).2 hopen

theorem isLine_entity_fields {ls : List Line} (h : ∀ l ∈ ls, IsLine l) : ∀ f ∈ (entity ls).fields, IsLine f.value := by
  intro f hf
  have hf := (List.mem_filter.mp hf).1
  obtain ⟨l, hl, hfield⟩ := List.mem_filterMap.mp hf
  have hline := Crlf.isLine_unfolded (fun l hl => h l ((List.takeWhile_sublist _).subset hl)) l hl
  exact Crlf.isLine_of_field? hline hfield

theorem isLine_of_read {message : List UInt8} (h : read message = some out) (hleaf : leaf ∈ out) :
    ∀ f ∈ leaf.fields, IsLine f.value := by
  obtain ⟨ls, hls, h⟩ := Option.bind_eq_some_iff.mp h
  have hlines := (Crlf.lines?_eq_some hls).2
  obtain ⟨e', he', hfrom⟩ := leaves_from h hleaf
  obtain ⟨content, -, rfl⟩ := Option.map_eq_some_iff.mp he'
  rcases hfrom with rfl | ⟨ls', rfl, hls'⟩
  · exact isLine_entity_fields hlines
  · exact isLine_entity_fields fun l hl => hlines l (mem_entity_body (hls' l hl))

end Leaves

end Multipart
end SyncEngine
