import SyncEngine.Library.Utf8
import SyncEngine.Library.Delimited
import SyncEngine.Library.Fallible

/-!
# Texts of lines that end with CR LF

The lines of a message and the fields of a header section, as a strict reader finds them: a CR stands before
an LF and nowhere else, an LF after a CR and nowhere else, and the last line has its end.
-/

namespace SyncEngine
namespace Utf8

variable {s t : List Char} {c : Char}

theorem ascii_mem_bytes_iff (h : c.toNat < 128) : ascii c ∈ bytes s ↔ c ∈ s := by
  induction s with
  | nil => simp [bytes]
  | cons d s ih =>
    rw [bytes_cons, List.mem_append, List.mem_cons, ih]
    by_cases hd : d.toNat < 128
    · have hiff : ascii c = ascii d ↔ c = d := by
        constructor
        · intro he
          have hn := congrArg UInt8.toNat he
          rw [ascii_toNat h, ascii_toNat hd] at hn
          exact Char.toNat_inj.mp hn
        · intro he
          rw [he]
      rw [encode_of_lt hd, List.mem_singleton, hiff]
    · have hne : c ≠ d := fun he => hd (he ▸ h)
      have hnot : ascii c ∉ String.utf8EncodeChar d := by
        intro hm
        have := high_of_le (Nat.le_of_not_lt hd) _ hm
        rw [ascii_toNat h] at this
        omega
      simp [hnot, hne]

theorem toList_loop (bs : ByteArray) (n i : Nat) (r : List UInt8) (h : bs.size = i + n) :
    ByteArray.toList.loop bs i r = r.reverse ++ bs.data.toList.drop i := by
  induction n generalizing i r with
  | zero =>
    have hlength : bs.data.toList.length ≤ i := by
      rw [Array.length_toList]
      show bs.size ≤ i
      omega
    rw [ByteArray.toList.loop.eq_1, if_neg (by omega), List.drop_of_length_le hlength, List.append_nil]
  | succ n ih =>
    have hi : i < bs.data.toList.length := by
      rw [Array.length_toList]
      show i < bs.size
      omega
    have hget : bs.get! i = bs.data.toList[i] := by
      show bs.data[i]! = _
      rw [getElem!_pos bs.data i (by simpa using hi)]
      rfl
    rw [ByteArray.toList.loop.eq_1, if_pos (by omega), ih (i + 1) _ (by omega), List.reverse_cons,
      List.append_assoc, List.drop_eq_getElem_cons hi, hget]
    rfl

def encoded (s : String) : List UInt8 := bytes s.toList

theorem toUTF8_toList (s : String) : s.toUTF8.toList = encoded s := by
  have h : s.toUTF8.toList = s.toByteArray.data.toList := by
    show ByteArray.toList.loop s.toByteArray 0 [] = _
    rw [toList_loop _ s.toByteArray.size 0 [] (by omega)]
    rfl
  rw [h, ← String.utf8Encode_toList, List.utf8Encode, List.toList_data_toByteArray]
  rfl

@[simp] theorem encoded_append (s t : String) : encoded (s ++ t) = encoded s ++ encoded t := by
  rw [encoded, String.toList_append, bytes_append]
  rfl

end Utf8

namespace Crlf

variable {s : List UInt8} {l : List UInt8} {ls : List (List UInt8)}

/-- The lines as they stand in a text. -/
def join (ls : List (List UInt8)) : List UInt8 := ls.flatMap fun l => l ++ [13, 10]

def IsLine (l : List UInt8) : Prop := 13 ∉ l ∧ 10 ∉ l

instance : Decidable (IsLine l) := inferInstanceAs (Decidable (_ ∧ _))

/-- No CR stands but before an LF, and no LF but after a CR. -/
structure NoBare (s : List UInt8) : Prop where
  cr : ∀ before after, s = before ++ 13 :: after → after.head? = some 10
  lf : ∀ before after, s = before ++ 10 :: after → before.getLast? = some 13

def lines? : List UInt8 → Option (List (List UInt8))
  | [] => some []
  | 13 :: 10 :: rest => (lines? rest).map fun ls => [] :: ls
  | b :: rest =>
    if b = 13 ∨ b = 10 then none
    else
      match lines? rest with
      | some (l :: ls) => some ((b :: l) :: ls)
      | _ => none

@[simp] theorem join_nil : join [] = [] := rfl

@[simp] theorem join_cons : join (l :: ls) = l ++ 13 :: 10 :: join ls := by simp [join]

@[simp] theorem join_append (ls ls' : List (List UInt8)) : join (ls ++ ls') = join ls ++ join ls' := by simp [join]

theorem lines?_cons_line (h : IsLine l) (rest : List UInt8) :
    lines? (l ++ 13 :: 10 :: rest) = (lines? rest).map fun ls => l :: ls := by
  induction l with
  | nil => rw [List.nil_append, lines?]
  | cons b l ih =>
    have hb : b ≠ 13 ∧ b ≠ 10 := ⟨fun e => h.1 (e ▸ List.mem_cons_self), fun e => h.2 (e ▸ List.mem_cons_self)⟩
    have hl : IsLine l := ⟨fun e => h.1 (List.mem_cons_of_mem b e), fun e => h.2 (List.mem_cons_of_mem b e)⟩
    have hor : ¬(b = 13 ∨ b = 10) := by
      rintro (e | e)
      · exact hb.1 e
      · exact hb.2 e
    rw [List.cons_append, lines?, if_neg hor, ih hl]
    · cases lines? rest <;> rfl
    · intro _ e _
      exact hb.1 e

theorem lines?_join (h : ∀ l ∈ ls, IsLine l) : lines? (join ls) = some ls := by
  induction ls with
  | nil => rfl
  | cons l ls ih =>
    have hls : ∀ l ∈ ls, IsLine l := fun l' hl => h l' (List.mem_cons_of_mem l hl)
    rw [join_cons, lines?_cons_line (h l List.mem_cons_self), ih hls]
    rfl

theorem lines?_eq_some (h : lines? s = some ls) : s = join ls ∧ ∀ l ∈ ls, IsLine l := by
  induction s using lines?.induct generalizing ls with
  | case1 =>
    obtain rfl := Option.some.inj h
    exact ⟨rfl, by simp⟩
  | case2 rest ih =>
    rw [lines?, Option.map_eq_some_iff] at h
    obtain ⟨ls', hrest, rfl⟩ := h
    obtain ⟨rfl, hlines⟩ := ih hrest
    refine ⟨by simp, fun l hl => ?_⟩
    rcases List.mem_cons.mp hl with rfl | hl
    · exact ⟨List.not_mem_nil, List.not_mem_nil⟩
    · exact hlines l hl
  | case3 b rest hpair hb =>
    rw [lines?, if_pos hb] at h
    · exact nomatch h
    · exact hpair
  | case4 b rest hpair hb l' ls' hrest ih =>
    rw [lines?, if_neg hb, hrest] at h
    · obtain rfl := Option.some.inj h
      obtain ⟨rfl, hlines⟩ := ih hrest
      refine ⟨by simp, fun l hl => ?_⟩
      rcases List.mem_cons.mp hl with rfl | hl
      · have hfirst := hlines l' List.mem_cons_self
        refine ⟨fun hm => ?_, fun hm => ?_⟩
        · rcases List.mem_cons.mp hm with e | hm
          · exact hb (.inl e.symm)
          · exact hfirst.1 hm
        · rcases List.mem_cons.mp hm with e | hm
          · exact hb (.inr e.symm)
          · exact hfirst.2 hm
      · exact hlines l (List.mem_cons_of_mem l' hl)
    · exact hpair
  | case5 b rest hpair hb hnone ih =>
    rw [lines?, if_neg hb] at h
    · cases hrest : lines? rest with
      | none => rw [hrest] at h; exact nomatch h
      | some ls' =>
        cases ls' with
        | nil => rw [hrest] at h; exact nomatch h
        | cons l' ls' => exact absurd hrest (hnone l' ls')
    · exact hpair

theorem noBare_join (h : ∀ l ∈ ls, IsLine l) : NoBare (join ls) := by
  induction ls with
  | nil =>
    constructor
    · intro before after he
      simp at he
    · intro before after he
      simp at he
  | cons l ls ih =>
    have hl := h l List.mem_cons_self
    have hrest := ih fun l' hl' => h l' (List.mem_cons_of_mem l hl')
    rw [join_cons]
    constructor
    · intro before after he
      rcases List.append_eq_append_iff.mp he with ⟨middle, rfl, hm⟩ | ⟨middle, rfl, hm⟩
      · cases middle with
        | nil =>
          rw [List.nil_append, List.cons.injEq] at hm
          rw [← hm.2]
          rfl
        | cons x middle =>
          rw [List.cons_append, List.cons.injEq] at hm
          cases middle with
          | nil =>
            rw [List.nil_append, List.cons.injEq] at hm
            exact absurd hm.2.1 (by decide)
          | cons y middle =>
            rw [List.cons_append, List.cons.injEq] at hm
            exact hrest.cr _ _ hm.2.2
      · cases middle with
        | nil =>
          rw [List.nil_append, List.cons.injEq] at hm
          rw [hm.2]
          rfl
        | cons x middle =>
          rw [List.cons_append, List.cons.injEq] at hm
          exact absurd (List.mem_append_right before (hm.1 ▸ List.mem_cons_self)) hl.1
    · intro before after he
      rcases List.append_eq_append_iff.mp he with ⟨middle, rfl, hm⟩ | ⟨middle, rfl, hm⟩
      · cases middle with
        | nil =>
          rw [List.nil_append, List.cons.injEq] at hm
          exact absurd hm.1 (by decide)
        | cons x middle =>
          rw [List.cons_append, List.cons.injEq] at hm
          cases middle with
          | nil =>
            rw [← hm.1]
            simp
          | cons y middle =>
            rw [List.cons_append, List.cons.injEq] at hm
            have hlast := hrest.lf _ _ hm.2.2
            cases middle with
            | nil => exact nomatch hlast
            | cons z middle => simpa using hlast
      · cases middle with
        | nil =>
          rw [List.nil_append, List.cons.injEq] at hm
          exact absurd hm.1 (by decide)
        | cons x middle =>
          rw [List.cons_append, List.cons.injEq] at hm
          exact absurd (List.mem_append_right before (hm.1 ▸ List.mem_cons_self)) hl.2

theorem suffix_join (h : ls ≠ []) : [13, 10] <:+ join ls := by
  obtain ⟨ls', l, rfl⟩ := (List.eq_nil_or_concat ls).resolve_left h
  exact ⟨join ls' ++ l, by simp⟩

theorem infix_join (h : l ∈ ls) : l <:+: join ls := by
  obtain ⟨before, after, rfl⟩ := List.append_of_mem h
  exact ⟨join before, 13 :: 10 :: join after, by simp⟩

theorem NoBare.eq_of_infix {b : UInt8} (h : NoBare s) (hin : [b, 10] <:+: s) : b = 13 := by
  obtain ⟨before, after, rfl⟩ := hin
  have hlast := h.lf (before ++ [b]) after (by simp)
  rw [List.getLast?_concat] at hlast
  exact Option.some.inj hlast

/-! ## Header sections -/

/-- A field of a header section: its name, and all that follows the colon. -/
structure Field where
  name : List UInt8
  value : List UInt8
  deriving DecidableEq, Repr

/-- Whether a line goes on with the field before it. -/
def continues (l : List UInt8) : Bool := l.head? = some 32 || l.head? = some 9

/-- The lines of a header section with every continuation put back to its field. -/
def unfolded : List (List UInt8) → List (List UInt8)
  | [] => []
  | l :: ls =>
    match unfolded ls with
    | [] => [l]
    | next :: rest => if continues next then (l ++ next) :: rest else l :: next :: rest

def field? (l : List UInt8) : Option Field := (splitAtFirst [58] l).map fun (name, value) => ⟨name, value⟩

def fields? (s : List UInt8) : Option (List Field) := do
  let ls ← lines? s
  if [] ∈ ls then none else (unfolded ls).mapM field?

/-- The fields before the empty line of a message. -/
def header? (s : List UInt8) : Option (List Field) := do
  let ls ← lines? s
  if [] ∈ ls then (unfolded (ls.takeWhile (· ≠ []))).mapM field? else none

namespace Field

def line (f : Field) : List UInt8 := f.name ++ 58 :: f.value

/-- A field that stands on one line of its own. -/
structure Valid (f : Field) : Prop where
  name : IsLine f.name
  value : IsLine f.value
  colon : 58 ∉ f.name
  start : continues f.line = false

theorem line_ne_nil (f : Field) : f.line ≠ [] := List.append_ne_nil_of_right_ne_nil _ (List.cons_ne_nil _ _)

variable {f : Field}

theorem Valid.isLine (h : f.Valid) : IsLine f.line := by
  constructor
  · intro hm
    rcases List.mem_append.mp hm with hm | hm
    · exact h.name.1 hm
    · rcases List.mem_cons.mp hm with e | hm
      · exact absurd e (by decide)
      · exact h.value.1 hm
  · intro hm
    rcases List.mem_append.mp hm with hm | hm
    · exact h.name.2 hm
    · rcases List.mem_cons.mp hm with e | hm
      · exact absurd e (by decide)
      · exact h.value.2 hm

theorem Valid.field? (h : f.Valid) : field? f.line = some f := by
  have hsplit : splitAtFirst [58] f.line = some (f.name, f.value) :=
    splitAtFirst_eq_some_iff.mpr ⟨rfl, fun b hb e => h.colon (e ▸ hb)⟩
  rw [Crlf.field?, hsplit]
  rfl

end Field

variable {fs : List Field}

theorem unfolded_eq (h : ∀ l ∈ ls, continues l = false) : unfolded ls = ls := by
  induction ls with
  | nil => rfl
  | cons l ls ih =>
    rw [unfolded, ih fun l' hl => h l' (List.mem_cons_of_mem l hl)]
    cases ls with
    | nil => rfl
    | cons next rest =>
      have hnext : continues next = false := h next (List.mem_cons_of_mem l List.mem_cons_self)
      simp only [hnext, Bool.false_eq_true, if_false]

theorem isLine_unfolded (h : ∀ l ∈ ls, IsLine l) : ∀ l ∈ unfolded ls, IsLine l := by
  induction ls with
  | nil => exact h
  | cons l ls ih =>
    have hl := h l List.mem_cons_self
    have hrest := ih fun l' hl' => h l' (List.mem_cons_of_mem l hl')
    rw [unfolded]
    cases hls : unfolded ls with
    | nil =>
      intro l' hl'
      obtain rfl := List.mem_singleton.mp hl'
      exact hl
    | cons next rest =>
      rw [hls] at hrest
      have hnext := hrest next List.mem_cons_self
      by_cases hc : continues next = true
      · intro l' hl'
        simp only [hc, if_true] at hl'
        rcases List.mem_cons.mp hl' with rfl | hl'
        · constructor
          · intro hm
            rcases List.mem_append.mp hm with hm | hm
            · exact hl.1 hm
            · exact hnext.1 hm
          · intro hm
            rcases List.mem_append.mp hm with hm | hm
            · exact hl.2 hm
            · exact hnext.2 hm
        · exact hrest l' (List.mem_cons_of_mem next hl')
      · intro l' hl'
        simp only [hc, Bool.false_eq_true, if_false] at hl'
        rcases List.mem_cons.mp hl' with rfl | hl'
        · exact hl
        · exact hrest l' hl'

theorem isLine_of_field? {f : Field} (hl : IsLine l) (h : field? l = some f) : IsLine f.value := by
  obtain ⟨⟨name, value⟩, hsplit, rfl⟩ := Option.map_eq_some_iff.mp h
  obtain ⟨rfl, -⟩ := splitAtFirst_eq_some_iff.mp hsplit
  exact ⟨fun hm => hl.1 (List.mem_append_right _ (List.mem_cons_of_mem _ hm)),
    fun hm => hl.2 (List.mem_append_right _ (List.mem_cons_of_mem _ hm))⟩

theorem isLine_of_fields? (h : fields? s = some fs) : ∀ f ∈ fs, IsLine f.value := by
  rw [fields?, Option.bind_eq_bind, Option.bind_eq_some_iff] at h
  obtain ⟨ls, hls, h⟩ := h
  split at h
  · exact nomatch h
  · have hlines := isLine_unfolded (lines?_eq_some hls).2
    rw [Fallible.mapM_some_iff] at h
    generalize unfolded ls = us at h hlines
    induction h with
    | nil => simp
    | cons hf _ ih =>
      intro f hmem
      rcases List.mem_cons.mp hmem with rfl | hmem
      · exact isLine_of_field? (hlines _ List.mem_cons_self) hf
      · exact ih (fun l hl => hlines l (List.mem_cons_of_mem _ hl)) f hmem

theorem unfolded_lines (h : ∀ f ∈ fs, f.Valid) : unfolded (fs.map Field.line) = fs.map Field.line := by
  apply unfolded_eq
  intro l hl
  obtain ⟨f, hf, rfl⟩ := List.mem_map.mp hl
  exact (h f hf).start

theorem mapM_field? (h : ∀ f ∈ fs, f.Valid) : (fs.map Field.line).mapM field? = some fs := by
  induction fs with
  | nil => rfl
  | cons f fs ih =>
    rw [List.map_cons, List.mapM_cons, (h f List.mem_cons_self).field?, ih fun g hg => h g (List.mem_cons_of_mem f hg)]
    rfl

theorem isLine_lines (h : ∀ f ∈ fs, f.Valid) : ∀ l ∈ fs.map Field.line, IsLine l := by
  intro l hl
  obtain ⟨f, hf, rfl⟩ := List.mem_map.mp hl
  exact (h f hf).isLine

theorem nil_notMem_lines (fs : List Field) : [] ∉ fs.map Field.line := by
  intro hm
  obtain ⟨f, -, hf⟩ := List.mem_map.mp hm
  exact f.line_ne_nil hf

theorem fields?_join (h : ∀ f ∈ fs, f.Valid) : fields? (join (fs.map Field.line)) = some fs := by
  rw [fields?, lines?_join (isLine_lines h), Option.bind_eq_bind, Option.bind_some, if_neg (nil_notMem_lines fs),
    unfolded_lines h, mapM_field? h]

theorem takeWhile_lines (fs : List Field) (body : List (List UInt8)) :
    (fs.map Field.line ++ [] :: body).takeWhile (· ≠ []) = fs.map Field.line := by
  rw [List.takeWhile_append_of_pos]
  · simp
  · intro l hl
    exact decide_eq_true fun e => nil_notMem_lines fs (e ▸ hl)

theorem header?_join (h : ∀ f ∈ fs, f.Valid) (hbody : ∀ l ∈ ls, IsLine l) :
    header? (join (fs.map Field.line ++ [] :: ls)) = some fs := by
  have hlines : ∀ l ∈ fs.map Field.line ++ [] :: ls, IsLine l := by
    intro l hl
    rcases List.mem_append.mp hl with hl | hl
    · exact isLine_lines h l hl
    · rcases List.mem_cons.mp hl with rfl | hl
      · exact ⟨List.not_mem_nil, List.not_mem_nil⟩
      · exact hbody l hl
  have hmem : [] ∈ fs.map Field.line ++ [] :: ls := List.mem_append_right _ List.mem_cons_self
  rw [header?, lines?_join hlines, Option.bind_eq_bind, Option.bind_some, if_pos hmem, takeWhile_lines,
    unfolded_lines h, mapM_field? h]

end Crlf
end SyncEngine
