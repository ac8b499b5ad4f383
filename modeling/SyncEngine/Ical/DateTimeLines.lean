import SyncEngine.Ical.DateTimes

/-!
# Lines of dates and times

The line of a date or a time, folded, is read back as one line with the same value.  For a time in a zone other than
UTC that is so exactly when the zone's name stands as a parameter value as it is, for the name is written bare.
-/

namespace SyncEngine
namespace Ical

/-! ## Bare parameter values -/

def bare (quoted : Bool) : Text → Text
  | [] => []
  | c :: rest =>
    if c = '"' then bare (!quoted) rest
    else if quoted then bare quoted rest
    else c :: bare quoted rest

def escapes : List Text := [['^', 'n'], ['^', '\''], ['^', '^']]

/-- A text that is read as it is when it is written bare as a parameter value at the end of a property's head: it has no
line feed and no colon or semicolon outside quotes, closes its quotes and is not all in quotes, has no white space at
its ends, and no escape. -/
structure StandsBare (value : Text) : Prop where
  noFeed : '\n' ∉ value
  noColon : ':' ∉ bare false value
  noSemicolon : ';' ∉ bare false value
  closed : value.count '"' % 2 = 0
  notQuoted : ¬ (value.head? = some '"' ∧ 2 ≤ value.length ∧ value.getLast? = some '"')
  trimmed : Trimmed value
  noEscape : ∀ escape ∈ escapes, ¬ escape <:+: value

section Bare

variable {text value : Text} {delim : Char} {quoted : Bool}

theorem map_cons_eq_some_cons {c : Char} {parts : Option (Text × Text)} {head tail : Text} :
    (parts.map fun (head, tail) => (c :: head, tail)) = some (c :: head, tail) ↔ parts = some (head, tail) := by
  cases parts with
  | none => simp
  | some parts => simp [Prod.ext_iff]

/-- A delimiter after a text is the first outside quotes when the text has none there and closes its quotes. -/
theorem splitOnceUnquotedFrom_bare_iff (hdelim : delim ≠ '"') (after : Text) :
    splitOnceUnquotedFrom delim quoted (text ++ delim :: after) = some (text, after) ↔
      delim ∉ bare quoted text ∧ (text.count '"' + quoted.toNat) % 2 = 0 := by
  induction text generalizing quoted with
  | nil =>
    rw [List.nil_append, splitOnceUnquotedFrom, if_neg hdelim, bare, List.count_nil]
    cases quoted with
    | false => simp
    | true => simp
  | cons c text ih =>
    rw [List.cons_append, splitOnceUnquotedFrom, bare, List.count_cons]
    by_cases hquote : c = '"'
    · rw [if_pos hquote, if_pos hquote, map_cons_eq_some_cons, ih]
      cases quoted with
      | false => simp [hquote]
      | true =>
        simp only [hquote, BEq.rfl, if_true, Bool.toNat_true, Bool.not_true, Bool.toNat_false]
        have hparity : (text.count '"' + 1 + 1) % 2 = (text.count '"' + 0) % 2 := by omega
        rw [hparity]
    · rw [if_neg hquote, if_neg hquote]
      have hcount : (c == '"') = false := by simp [hquote]
      rw [hcount]
      cases quoted with
      | true =>
        rw [if_neg (by simp), map_cons_eq_some_cons, ih]
        simp
      | false =>
        by_cases hc : c = delim
        · rw [if_pos (by simp [hc])]
          simp [hc]
        · rw [if_neg (by simp [hc]), map_cons_eq_some_cons, ih]
          simp [Ne.symm hc]

theorem splitUnquotedFrom_bare_iff (segment : Text) :
    splitUnquotedFrom delim quoted segment text = [segment ++ text] ↔ delim ∉ bare quoted text := by
  induction text generalizing quoted segment with
  | nil => simp [splitUnquotedFrom, bare]
  | cons c text ih =>
    have hnext : segment ++ c :: text = (segment ++ [c]) ++ text := by simp
    rw [splitUnquotedFrom, bare]
    by_cases hquote : c = '"'
    · rw [if_pos hquote, if_pos hquote, hnext, ih]
    · rw [if_neg hquote, if_neg hquote]
      cases quoted with
      | true =>
        rw [if_neg (by simp), hnext, ih]
        rfl
      | false =>
        by_cases hc : c = delim
        · rw [if_pos (by simp [hc])]
          obtain ⟨first, rest, hsplit, -⟩ := @splitUnquotedFrom_eq delim false [] text
          simp [hc, hsplit]
        · rw [if_neg (by simp [hc]), hnext, ih]
          simp [Ne.symm hc]

theorem trimChars_sublist (text : Text) : (trimChars text).Sublist text := by
  unfold trimChars
  have hback := (List.dropWhile_sublist isWhiteSpace (l := (text.dropWhile isWhiteSpace).reverse)).reverse
  rw [List.reverse_reverse] at hback
  exact hback.trans (List.dropWhile_sublist isWhiteSpace)

theorem unquote_sublist (value : Text) : (unquote value).Sublist value := by
  unfold unquote
  split
  · split
    · exact (List.dropLast_sublist _).trans (List.sublist_cons_self _ _)
    · exact List.Sublist.refl _
  · exact List.Sublist.refl _

theorem unquote_eq_iff :
    unquote value = value ↔ ¬ (value.head? = some '"' ∧ 2 ≤ value.length ∧ value.getLast? = some '"') := by
  unfold unquote
  split
  · rename_i rest
    cases rest with
    | nil => simp
    | cons c rest =>
      rw [List.getLast?_cons_cons]
      split
      · rename_i hlast
        refine iff_of_false ?_ fun h => h ⟨rfl, by simp, hlast⟩
        intro h
        have hlength := congrArg List.length h
        simp only [List.length_dropLast, List.length_cons] at hlength
        omega
      · rename_i hlast
        exact iff_of_true rfl fun h => hlast h.2.2
  · rename_i hnot
    refine iff_of_true rfl fun h => ?_
    obtain ⟨rest, hrest⟩ := List.head?_eq_some_iff.mp h.1
    exact hnot rest hrest

theorem length_decodeParam_le (text : Text) : (decodeParam text).length ≤ text.length := by
  induction text using decodeParam.induct with
  | case1 rest ih => rw [decodeParam]; simp only [List.length_cons]; omega
  | case2 rest ih => rw [decodeParam]; simp only [List.length_cons]; omega
  | case3 rest ih => rw [decodeParam]; simp only [List.length_cons]; omega
  | case4 c rest hn hquote hcaret ih =>
    rw [decodeParam]
    · simpa using ih
    · exact hn
    · exact hquote
    · exact hcaret
  | case5 => exact Nat.le_refl _

theorem noEscape_of_length (h : (decodeParam text).length = text.length) : ∀ escape ∈ escapes, ¬ escape <:+: text := by
  have hshort : ∀ {c d e : Char} {rest : Text}, (c :: decodeParam rest).length ≠ (d :: e :: rest).length := by
    intro c d e rest
    have hle := length_decodeParam_le rest
    simp only [List.length_cons]
    omega
  induction text using decodeParam.induct with
  | case1 rest ih =>
    rw [decodeParam] at h
    exact absurd h hshort
  | case2 rest ih =>
    rw [decodeParam] at h
    exact absurd h hshort
  | case3 rest ih =>
    rw [decodeParam] at h
    exact absurd h hshort
  | case4 c rest hn hquote hcaret ih =>
    have hstep : decodeParam (c :: rest) = c :: decodeParam rest := by
      rw [decodeParam]
      exacts [hn, hquote, hcaret]
    rw [hstep, List.length_cons, List.length_cons] at h
    intro escape hescape hinside
    rcases List.infix_cons_iff.mp hinside with ⟨after, hafter⟩ | hlater
    · simp only [escapes, List.mem_cons, List.not_mem_nil, or_false] at hescape
      rcases hescape with rfl | rfl | rfl
      · exact hn after (List.cons.inj hafter).1.symm (List.cons.inj hafter).2.symm
      · exact hquote after (List.cons.inj hafter).1.symm (List.cons.inj hafter).2.symm
      · exact hcaret after (List.cons.inj hafter).1.symm (List.cons.inj hafter).2.symm
    · exact ih (Nat.add_right_cancel h) escape hescape hlater
  | case5 => decide

theorem decodeParam_of_noEscape (h : ∀ escape ∈ escapes, ¬ escape <:+: text) : decodeParam text = text := by
  induction text using decodeParam.induct with
  | case1 rest ih => exact absurd ⟨[], rest, rfl⟩ (h ['^', 'n'] (by decide))
  | case2 rest ih => exact absurd ⟨[], rest, rfl⟩ (h ['^', '\''] (by decide))
  | case3 rest ih => exact absurd ⟨[], rest, rfl⟩ (h ['^', '^'] (by decide))
  | case4 c rest hn hquote hcaret ih =>
    rw [decodeParam]
    · rw [ih fun escape hescape hinside => h escape hescape (List.infix_cons hinside)]
    · exact hn
    · exact hquote
    · exact hcaret
  | case5 => rfl

end Bare

/-! ## Zone names -/

section Zones

variable {text zone name : Text} {z : TimeZoneId} {c : Char} {quoted : Bool}

theorem mem_of_mem_bare (h : c ∈ bare quoted text) : c ∈ text := by
  induction text generalizing quoted with
  | nil => exact h
  | cons d text ih =>
    rw [bare] at h
    split at h
    · exact List.mem_cons_of_mem d (ih h)
    · split at h
      · exact List.mem_cons_of_mem d (ih h)
      · rcases List.mem_cons.mp h with rfl | h
        · exact List.mem_cons_self
        · exact List.mem_cons_of_mem d (ih h)

theorem not_isWhiteSpace_of_isPlain (h : isPlain c = true) : isWhiteSpace c = false := by
  have hrange : 43 ≤ c.toNat ∧ c.toNat ≤ 122 := by
    unfold isPlain at h
    simp only [Char.isAlphanum, Char.isAlpha, Char.isUpper, Char.isLower, Char.isDigit, Bool.or_eq_true, Bool.and_eq_true,
      decide_eq_true_eq, ge_iff_le, UInt32.le_iff_toNat_le] at h
    have hval : c.val.toNat = c.toNat := rfl
    rw [hval] at h
    rcases h with (((h | rfl) | rfl) | rfl) | rfl
    · have hA : 'A'.val.toNat = 65 := rfl
      have hZ : 'Z'.val.toNat = 90 := rfl
      have ha : 'a'.val.toNat = 97 := rfl
      have hz : 'z'.val.toNat = 122 := rfl
      have h0 : '0'.val.toNat = 48 := rfl
      have h9 : '9'.val.toNat = 57 := rfl
      omega
    all_goals decide
  unfold isWhiteSpace
  simp only [Bool.or_eq_false_iff, Bool.and_eq_false_iff, decide_eq_false_iff_not, beq_eq_false_iff_ne]
  omega

theorem standsBare_of_plain (h : ∀ c ∈ zone, isPlain c = true) : StandsBare zone := by
  have hnot : ∀ {c : Char}, isPlain c = false → c ∉ zone := fun hc hmem => Bool.false_ne_true (hc ▸ h _ hmem)
  have hquote : '"' ∉ zone := hnot rfl
  have hcaret : '^' ∉ zone := hnot rfl
  refine ⟨hnot rfl, fun hmem => hnot rfl (mem_of_mem_bare hmem), fun hmem => hnot rfl (mem_of_mem_bare hmem), ?_, ?_, ?_, ?_⟩
  · rw [List.count_eq_zero.mpr hquote]
  · exact fun hends => hquote (List.mem_of_mem_head? hends.1)
  · exact trimmed_of_forall fun c hc => not_isWhiteSpace_of_isPlain (h c hc)
  · have hescapes : ∀ escape ∈ escapes, '^' ∈ escape := by decide
    exact fun escape hescape hinside => hcaret (hinside.subset (hescapes escape hescape))

theorem resolveZoneName_again (h : resolveZoneName windowsToIana name = some z) :
    resolveZoneName windowsToIana z.name = some z := by
  have hgiven := h
  unfold resolveZoneName at h
  split at h
  · rename_i iana hiana
    obtain ⟨hslash, hplain⟩ := windowsToIana_plain hiana
    have hcolon : ':' ∉ iana := fun hmem => Bool.false_ne_true (hplain ':' hmem)
    have huri : "tzone:".toList.isPrefixOf iana = false := by
      rw [Bool.eq_false_iff, ne_eq, List.isPrefixOf_iff_prefix]
      exact fun hpre => hcolon (hpre.subset (by decide))
    split at h
    · exact nomatch h
    · obtain rfl := Option.some.inj h
      unfold resolveZoneName
      rw [TimeZoneId.name, windowsToIana_slash hslash, huri]
      simp [hslash]
  · split at h
    · obtain rfl := Option.some.inj h
      exact hgiven
    · split at h
      · exact nomatch h
      · obtain rfl := Option.some.inj h
        exact hgiven

end Zones

/-! ## What is written -/

section Written

variable {name key param value : Text} {at_ : LocalDateTime} {d : Date} {c : Char}

theorem splitOnce_here (hkey : '=' ∉ key) : splitOnce (key ++ '=' :: param) '=' = some (key, param) := by
  have hkeep : ∀ c ∈ key, decide (c ≠ '=') = true := fun c hc => decide_eq_true fun e => hkey (e ▸ hc)
  unfold splitOnce
  rw [if_pos (by simp), List.takeWhile_append_of_pos hkeep, List.dropWhile_append_of_pos hkeep]
  simp

theorem parseParam_bare (hkey : '=' ∉ key) (h : StandsBare param) :
    parseParam (key ++ '=' :: param) = some (upper (trimChars key), param) := by
  unfold parseParam
  rw [splitOnce_here hkey, Option.map_some]
  dsimp only
  rw [trimChars_of_trimmed h.trimmed, unquote_eq_iff.mpr h.notQuoted, decodeParam_of_noEscape h.noEscape]

/-- None of what ends the name of a parameter. -/
def IsKey (key : Text) : Prop := ∀ c ∈ key, c ≠ ':' ∧ c ≠ ';' ∧ c ≠ '"' ∧ c ≠ '='

theorem isKey_tzid : IsKey "TZID".toList := by
  unfold IsKey
  decide

theorem IsKey.no_colon (hname : IsName name) (hkey : IsKey key) :
    ∀ c ∈ name ++ ';' :: (key ++ ['=']), c ≠ ':' ∧ c ≠ '"' := by
  intro c hc
  simp only [List.mem_append, List.mem_cons, List.not_mem_nil, or_false] at hc
  rcases hc with hc | rfl | hc | rfl
  · exact ⟨(hname c hc).1, (hname c hc).2.2.1⟩
  · decide
  · exact ⟨(hkey c hc).1, (hkey c hc).2.2.1⟩
  · decide

theorem IsKey.no_semicolon (hkey : IsKey key) : ∀ c ∈ key ++ ['='], c ≠ ';' ∧ c ≠ '"' := by
  intro c hc
  simp only [List.mem_append, List.mem_cons, List.not_mem_nil, or_false] at hc
  rcases hc with hc | rfl
  · exact ⟨(hkey c hc).2.1, (hkey c hc).2.2.1⟩
  · decide

theorem splitOnceUnquoted_param_iff (hname : IsName name) (hkey : IsKey key) :
    splitOnceUnquoted (name ++ ';' :: (key ++ '=' :: (param ++ ':' :: value))) ':' =
        some (name ++ ';' :: (key ++ '=' :: param), value) ↔
      ':' ∉ bare false param ∧ param.count '"' % 2 = 0 := by
  have hline : name ++ ';' :: (key ++ '=' :: (param ++ ':' :: value)) =
      (name ++ ';' :: (key ++ ['='])) ++ (param ++ ':' :: value) := by simp
  have hhead : name ++ ';' :: (key ++ '=' :: param) = (name ++ ';' :: (key ++ ['='])) ++ param := by simp
  unfold splitOnceUnquoted
  rw [hline, hhead, splitOnceUnquotedFrom_plain (IsKey.no_colon hname hkey), Option.map_eq_some_iff]
  have hbare := @splitOnceUnquotedFrom_bare_iff param ':' false (by decide) value
  rw [Bool.toNat_false, Nat.add_zero] at hbare
  rw [← hbare]
  constructor
  · rintro ⟨⟨front, back⟩, hsplit, hpair⟩
    obtain ⟨hfront, rfl⟩ := Prod.mk.inj hpair
    rw [hsplit, List.append_cancel_left hfront]
  · exact fun hsplit => ⟨_, hsplit, rfl⟩

theorem splitUnquoted_param_iff (hname : IsName name) (hkey : IsKey key) :
    splitUnquoted (name ++ ';' :: (key ++ '=' :: param)) ';' = [name, key ++ '=' :: param] ↔ ';' ∉ bare false param := by
  have hsemi : ∀ c ∈ name, c ≠ ';' ∧ c ≠ '"' := fun c hc => ⟨(hname c hc).2.1, (hname c hc).2.2.1⟩
  have hafter : key ++ '=' :: param = (key ++ ['=']) ++ param := by simp
  unfold splitUnquoted
  rw [splitUnquotedFrom_plain hsemi, splitUnquotedFrom, if_neg (by decide), if_pos (by decide), hafter,
    splitUnquotedFrom_plain hkey.no_semicolon, List.nil_append, List.nil_append, List.cons.injEq]
  rw [← splitUnquotedFrom_bare_iff (key ++ ['='])]
  exact and_iff_right rfl

theorem tokenize_param (hname : IsName name) (hne : name ≠ []) (hkey : IsKey key) (h : StandsBare param) :
    tokenize (name ++ ';' :: (key ++ '=' :: (param ++ ':' :: value))) =
      some ⟨upper name, [(upper (trimChars key), param)], value⟩ := by
  have hequal : '=' ∉ key := fun hc => (hkey '=' hc).2.2.2 rfl
  unfold tokenize
  rw [(splitOnceUnquoted_param_iff hname hkey).mpr ⟨h.noColon, h.closed⟩]
  dsimp only
  rw [(splitUnquoted_param_iff hname hkey).mpr h.noSemicolon]
  dsimp only
  rw [if_neg hne, List.filterMap_cons, parseParam_bare hequal h]
  rfl

theorem mem_formatDate (h : c ∈ formatDate d) : c.isDigit = true := List.all_eq_true.mp (isDigits_formatDate d) c h

theorem mem_formatLocal (h : c ∈ formatLocal at_) : c.isDigit = true ∨ c = 'T' := by
  have hdigits : ∀ {width n : Nat}, c ∈ padded width n → c.isDigit = true :=
    fun hc => List.all_eq_true.mp (isDigits_padded _ _) c hc
  unfold formatLocal at h
  simp only [List.mem_append, List.mem_cons] at h
  rcases h with ((hdate | rfl | hhour) | hminute) | hsecond
  · exact .inl (mem_formatDate hdate)
  · exact .inr rfl
  · exact .inl (hdigits hhour)
  · exact .inl (hdigits hminute)
  · exact .inl (hdigits hsecond)

end Written

/-! ## What is read -/

section Read

variable {line : ContentLine} {value : CalendarDateTime} {n params : Text} {at_ : LocalDateTime} {zone : TimeZoneId}

theorem length_of_parseLocal {text : Text} (h : parseLocal text = .ok at_) : text.length = 15 := by
  unfold parseLocal at h
  split at h
  · rename_i hform
    simp only [Bool.and_eq_true, decide_eq_true_eq] at hform
    exact hform.1.1.1
  · exact nomatch h

variable {w : Text → Option Text}

theorem parseCalendarDateTime_cases (h : parseCalendarDateTime w line = .ok value) :
    (∃ d, value = .date d ∧ d.Valid) ∨ (∃ at_, value = .floating at_ ∧ at_.Valid) ∨
      (∃ at_, value = .zoned at_ .utc ∧ at_.Valid) ∨
      ∃ at_ zone tzid, value = .zoned at_ zone ∧ parseLocal (trimChars line.value) = .ok at_ ∧
        line.param "TZID".toList = some tzid ∧ resolveZoneName w tzid = some zone := by
  unfold parseCalendarDateTime at h
  dsimp only at h
  split at h
  · cases hdate : parseDate (trimChars line.value) with
    | error e => rw [hdate] at h; exact nomatch h
    | ok d =>
      rw [hdate] at h
      exact .inl ⟨d, (Except.ok.inj h).symm, parseDate_valid hdate⟩
  · split at h
    · cases hlocal : parseLocal (trimChars line.value).dropLast with
      | error e => rw [hlocal] at h; exact nomatch h
      | ok at_ =>
        rw [hlocal] at h
        exact .inr (.inr (.inl ⟨at_, (Except.ok.inj h).symm, parseLocal_valid hlocal⟩))
    · split at h
      · exact nomatch h
      · rename_i at_ tzid hlocal htzid
        split at h
        · rename_i zone hzone
          exact .inr (.inr (.inr ⟨at_, zone, tzid, (Except.ok.inj h).symm, hlocal, htzid, hzone⟩))
        · exact nomatch h
      · rename_i at_ hlocal hnone
        exact .inr (.inl ⟨at_, (Except.ok.inj h).symm, parseLocal_valid hlocal⟩)

theorem trimChars_formatLocal (at_ : LocalDateTime) : trimChars (formatLocal at_) = formatLocal at_ := by
  apply trimChars_of_trimmed
  apply trimmed_of_forall
  intro c hc
  rcases mem_formatLocal hc with hdigit | rfl
  · exact not_isWhiteSpace_of_isDigit hdigit
  · decide

theorem last_formatLocal (at_ : LocalDateTime) :
    (decide ((formatLocal at_).getLast? = some 'Z') || decide ((formatLocal at_).getLast? = some 'z')) = false := by
  have hnot : ∀ c : Char, c.isDigit = false → c ≠ 'T' → (formatLocal at_).getLast? ≠ some c := by
    intro c hdigit hT hlast
    rcases mem_formatLocal (List.mem_of_getLast? hlast) with hc | hc
    · exact Bool.false_ne_true (hdigit ▸ hc)
    · exact hT hc
  rw [Bool.or_eq_false_iff, decide_eq_false_iff_not, decide_eq_false_iff_not]
  exact ⟨hnot 'Z' rfl (by decide), hnot 'z' rfl (by decide)⟩

theorem length_le_size (text : Text) : text.length ≤ (text.map Char.utf8Size).sum := by
  induction text with
  | nil => exact Nat.le_refl 0
  | cons c text ih =>
    have hpos : 0 < c.utf8Size := Char.utf8Size_pos c
    simp only [List.length_cons, List.map_cons, List.sum_cons]
    omega

theorem parseCalendarDateTime_clock (h : at_.Valid)
    (hline : line.param "VALUE".toList = none) (hvalue : line.value = formatLocal at_) :
    parseCalendarDateTime w line =
      match line.param "TZID".toList with
      | some tzid =>
        match resolveZoneName w tzid with
        | some zone => .ok (.zoned at_ zone)
        | none => .error (.badTzid tzid)
      | none => .ok (.floating at_) := by
  have hsize := length_le_size (formatLocal at_)
  rw [length_formatLocal h] at hsize
  have hlong : ¬ ((formatLocal at_).map Char.utf8Size).sum = 8 := by omega
  unfold parseCalendarDateTime
  dsimp only
  rw [hline, hvalue, trimChars_formatLocal, decide_eq_false hlong, if_neg (by simp), last_formatLocal, if_neg (by simp),
    parseLocal_formatLocal h]
  cases line.param "TZID".toList with
  | none => rfl
  | some tzid => rfl

theorem parseCalendarDateTime_utc (h : at_.Valid) (hline : line.param "VALUE".toList = none)
    (hvalue : line.value = formatLocal at_ ++ ['Z']) : parseCalendarDateTime w line = .ok (.zoned at_ .utc) := by
  have hsize := length_le_size (formatLocal at_ ++ ['Z'])
  rw [List.length_append, length_formatLocal h] at hsize
  have hlong : ¬ ((formatLocal at_ ++ ['Z']).map Char.utf8Size).sum = 8 := by omega
  have htrim : trimChars (formatLocal at_ ++ ['Z']) = formatLocal at_ ++ ['Z'] := by
    apply trimChars_of_trimmed
    apply trimmed_of_forall
    intro c hc
    rcases List.mem_append.mp hc with hc | hc
    · rcases mem_formatLocal hc with hdigit | rfl
      · exact not_isWhiteSpace_of_isDigit hdigit
      · decide
    · rw [List.mem_singleton.mp hc]
      decide
  unfold parseCalendarDateTime
  dsimp only
  rw [hline, hvalue, htrim, decide_eq_false hlong, if_neg (by simp), List.getLast?_concat, if_pos (by simp),
    List.dropLast_concat, parseLocal_formatLocal h]
  rfl

theorem parseCalendarDateTime_date {d : Date} (h : d.Valid)
    (hline : line.param "VALUE".toList = some "DATE".toList) (hvalue : line.value = formatDate d) :
    parseCalendarDateTime w line = .ok (.date d) := by
  have htrim : trimChars (formatDate d) = formatDate d :=
    trimChars_of_trimmed (trimmed_of_isDigits (isDigits_formatDate d))
  have hsame : eqIgnoreCase "DATE".toList "DATE".toList = true := by decide
  unfold parseCalendarDateTime
  dsimp only
  rw [hline, hvalue, htrim, Option.any_some, hsame, Bool.true_or, if_pos rfl, parseDate_formatDate h]
  rfl

end Read

/-! ## Written and read back -/

section Back

variable {name raw tzid : Text} {line : ContentLine} {value : CalendarDateTime} {at_ : LocalDateTime} {zone : TimeZoneId}

def IsRead (value : CalendarDateTime) : Prop :=
  ∃ text : Text, ∃ line ∈ contentLines text, parseCalendarDateTime windowsToIana line = .ok value

variable {key n param text : Text}

theorem param_same (h : eqIgnoreCase key n = true) : (ContentLine.mk name [(key, param)] text).param n = some param := by
  show ([(key, param)].find? fun p => eqIgnoreCase p.1 n).map Prod.snd = some param
  rw [List.find?_cons_of_pos (by simpa using h)]
  rfl

theorem param_other (h : eqIgnoreCase key n = false) : (ContentLine.mk name [(key, param)] text).param n = none := by
  show ([(key, param)].find? fun p => eqIgnoreCase p.1 n).map Prod.snd = none
  rw [List.find?_cons_of_neg (by simp [h])]
  rfl

theorem contentLines_dateTimeLine (hno : '\n' ∉ dateTimeLine name value) :
    contentLines (foldLine (dateTimeLine name value) crlf) = (tokenize (dateTimeLine name value)).toList :=
  contentLines_foldLine isTerm_crlf fun _ hc => ⟨fun e => hno (e ▸ hc), fun e => nomatch e⟩

theorem noFeed_formatLocal (at_ : LocalDateTime) : '\n' ∉ formatLocal at_ := by
  intro hmem
  rcases mem_formatLocal hmem with hdigit | hT
  · exact Bool.false_ne_true hdigit
  · exact absurd hT (by decide)

theorem dateTimeLine_read (hname : IsName name) (hne : name ≠ []) (hvalue : IsRead value)
    (hbare : ∀ at_ zone, value = .zoned at_ zone → zone ≠ .utc → StandsBare zone.name) :
    ∃ line, contentLines (foldLine (dateTimeLine name value) crlf) = [line] ∧ line.name = upper name ∧
      parseCalendarDateTime windowsToIana line = .ok value := by
  have hfeed : '\n' ∉ name := fun hmem => (hname '\n' hmem).2.2.2.1 rfl
  have hread : ∀ line, '\n' ∉ dateTimeLine name value → tokenize (dateTimeLine name value) = some line →
      line.name = upper name → parseCalendarDateTime windowsToIana line = .ok value →
      ∃ line, contentLines (foldLine (dateTimeLine name value) crlf) = [line] ∧ line.name = upper name ∧
        parseCalendarDateTime windowsToIana line = .ok value := by
    intro line hno htoken hnamed hparse
    refine ⟨line, ?_, hnamed, hparse⟩
    rw [contentLines_dateTimeLine hno, htoken]
    rfl
  have hutc : ∀ at_ : LocalDateTime, at_.Valid → value = .zoned at_ .utc →
      ∃ line, contentLines (foldLine (dateTimeLine name value) crlf) = [line] ∧ line.name = upper name ∧
        parseCalendarDateTime windowsToIana line = .ok value := by
    rintro at_ hat rfl
    have hline : dateTimeLine name (.zoned at_ .utc) = name ++ ':' :: (formatLocal at_ ++ ['Z']) := by
      simp [dateTimeLine]
    apply hread ⟨upper name, [], formatLocal at_ ++ ['Z']⟩
    · rw [hline]
      have hclock := noFeed_formatLocal at_
      simp [hfeed, hclock]
    · rw [hline]
      exact tokenize_named hname hne _
    · rfl
    · exact parseCalendarDateTime_utc hat rfl rfl
  obtain ⟨text, source, -, hsource⟩ := hvalue
  rcases parseCalendarDateTime_cases hsource with ⟨d, rfl, hd⟩ | ⟨at_, rfl, hat⟩ | ⟨at_, hat, hvalid⟩ |
    ⟨at_, zone, tzid, rfl, hlocal, -, hzone⟩
  · have hline : dateTimeLine name (.date d) = name ++ ';' :: ("VALUE".toList ++ '=' :: ("DATE".toList ++ ':' :: formatDate d)) := by
      simp [dateTimeLine]
    have hdate : StandsBare "DATE".toList := standsBare_of_plain (by decide)
    have hkey : IsKey "VALUE".toList := by
      unfold IsKey
      decide
    have htoken : tokenize (dateTimeLine name (.date d)) = some ⟨upper name, [("VALUE".toList, "DATE".toList)], formatDate d⟩ := by
      rw [hline, tokenize_param hname hne hkey hdate]
      rfl
    apply hread _ _ htoken rfl
    · exact parseCalendarDateTime_date hd (param_same (by decide)) rfl
    · rw [hline]
      have hdigits : '\n' ∉ formatDate d := fun hmem => Bool.false_ne_true (mem_formatDate hmem)
      simp [hfeed, hdigits]
  · apply hread ⟨upper name, [], formatLocal at_⟩
    · have hclock := noFeed_formatLocal at_
      simp [dateTimeLine, hfeed, hclock]
    · exact tokenize_named hname hne (formatLocal at_)
    · rfl
    · exact parseCalendarDateTime_clock hat rfl rfl
  · exact hutc at_ hvalid hat
  · have hat := parseLocal_valid hlocal
    by_cases hzoneUtc : zone = .utc
    · exact hutc at_ hat (by rw [hzoneUtc])
    have hstands := hbare at_ zone rfl hzoneUtc
    have hline : dateTimeLine name (.zoned at_ zone) =
        name ++ ';' :: ("TZID".toList ++ '=' :: (zone.name ++ ':' :: formatLocal at_)) := by
      simp [dateTimeLine, hzoneUtc]
    have htoken : tokenize (dateTimeLine name (.zoned at_ zone)) =
        some ⟨upper name, [("TZID".toList, zone.name)], formatLocal at_⟩ := by
      rw [hline, tokenize_param hname hne isKey_tzid hstands]
      rfl
    apply hread _ _ htoken rfl
    · have hparse := @parseCalendarDateTime_clock ⟨upper name, [("TZID".toList, zone.name)], formatLocal at_⟩ at_
        windowsToIana hat (param_other (by decide)) rfl
      rw [param_same (by decide)] at hparse
      dsimp only at hparse
      rw [resolveZoneName_again hzone] at hparse
      exact hparse
    · rw [hline]
      have hclock := noFeed_formatLocal at_
      have hzoneFeed := hstands.noFeed
      simp [hfeed, hclock, hzoneFeed]

theorem tokenize_parts (h : tokenize raw = some line) : ∃ own segments,
    splitOnceUnquoted raw ':' = some (own ++ segments.flatMap fun segment => ';' :: segment, line.value) ∧
      splitUnquoted (own ++ segments.flatMap fun segment => ';' :: segment) ';' = own :: segments ∧
      line.name = upper own ∧ line.params = segments.filterMap parseParam := by
  unfold tokenize at h
  split at h
  · exact nomatch h
  · rename_i head value honce
    split at h
    · exact nomatch h
    · rename_i own segments hsegments
      split at h
      · exact nomatch h
      · obtain rfl := Option.some.inj h
        obtain ⟨first, rest, hsplit, -, hhead⟩ := @splitUnquotedFrom_eq ';' false [] head
        have hsame : first :: rest = own :: segments := hsplit.symm.trans hsegments
        obtain ⟨rfl, rfl⟩ := List.cons.inj hsame
        refine ⟨first, rest, ?_, ?_, rfl, rfl⟩
        · rw [← hhead]
          exact honce
        · rw [← hhead]
          exact hsegments

theorem splitOnce_eq {c : Char} (h : splitOnce text c = some (key, param)) : text = key ++ c :: param := by
  unfold splitOnce at h
  split at h
  · rename_i hmem
    obtain ⟨rfl, rfl⟩ := Prod.mk.inj (Option.some.inj h)
    have hsplit : text.takeWhile (fun d => decide (d ≠ c)) ++ text.dropWhile (fun d => decide (d ≠ c)) = text :=
      List.takeWhile_append_dropWhile
    cases hrest : text.dropWhile (fun d => decide (d ≠ c)) with
    | nil =>
      have hall := List.dropWhile_eq_nil_iff.mp hrest c hmem
      simp at hall
    | cons d rest =>
      have hd : d = c := by
        have hstop := List.head?_dropWhile_not (fun d => decide (d ≠ c)) text
        rw [hrest] at hstop
        simpa using hstop
      rw [hrest, hd] at hsplit
      rw [List.drop_one, List.tail_cons]
      exact hsplit.symm
  · exact nomatch h

theorem param_segment {segments : List Text} (h : line.param n = some tzid)
    (hparams : line.params = segments.filterMap parseParam) : ∃ before key param after,
    segments = before ++ (key ++ '=' :: param) :: after ∧ eqIgnoreCase (upper (trimChars key)) n = true ∧
      decodeParam (unquote (trimChars param)) = tzid := by
  unfold ContentLine.param at h
  rw [hparams] at h
  obtain ⟨⟨key', param'⟩, hfound, rfl⟩ := Option.map_eq_some_iff.mp h
  have hsame := List.find?_some hfound
  obtain ⟨segment, hsegment, hparse⟩ := List.mem_filterMap.mp (List.mem_of_find?_eq_some hfound)
  obtain ⟨⟨key, param⟩, hsplit, hpair⟩ := Option.map_eq_some_iff.mp hparse
  obtain ⟨rfl, rfl⟩ := Prod.mk.inj hpair
  obtain ⟨before, after, hsegments⟩ := List.append_of_mem hsegment
  rw [splitOnce_eq hsplit] at hsegments
  exact ⟨before, key, param, after, hsegments, hsame, rfl⟩

theorem resolveZoneName_name (h : resolveZoneName windowsToIana tzid = some zone) :
    (∀ c ∈ zone.name, isPlain c = true) ∨ zone.name = tzid := by
  unfold resolveZoneName at h
  split at h
  · rename_i iana hiana
    split at h
    · exact nomatch h
    · obtain rfl := Option.some.inj h
      exact .inl (windowsToIana_plain hiana).2
  · split at h
    · obtain rfl := Option.some.inj h
      exact .inr rfl
    · split at h
      · exact nomatch h
      · obtain rfl := Option.some.inj h
        exact .inr rfl

theorem length_upper (text : Text) : (upper text).length = text.length := List.length_map _

theorem standsBare_of_read (hname : IsName name) (hutc : zone ≠ .utc)
    (hread : contentLines (foldLine (dateTimeLine name (.zoned at_ zone)) crlf) = [line]) (hnamed : line.name = upper name)
    (hparse : parseCalendarDateTime windowsToIana line = .ok (.zoned at_ zone)) : StandsBare zone.name := by
  obtain ⟨tzid, hlocal, htzid, hzone⟩ : ∃ tzid, parseLocal (trimChars line.value) = .ok at_ ∧
      line.param "TZID".toList = some tzid ∧ resolveZoneName windowsToIana tzid = some zone := by
    rcases parseCalendarDateTime_cases hparse with ⟨d, hd, -⟩ | ⟨at', hat, -⟩ | ⟨at', hat, -⟩ |
      ⟨at', zone', tzid, hat, hlocal, htzid, hzone⟩
    · exact nomatch hd
    · exact nomatch hat
    · exact absurd (CalendarDateTime.zoned.inj hat).2 hutc
    · obtain ⟨rfl, rfl⟩ := CalendarDateTime.zoned.inj hat
      exact ⟨tzid, hlocal, htzid, hzone⟩
  rcases resolveZoneName_name hzone with hplain | hsame
  · exact standsBare_of_plain hplain
  have hmem : line ∈ contentLines (foldLine (dateTimeLine name (.zoned at_ zone)) crlf) := by
    rw [hread]
    exact List.mem_singleton_self line
  obtain ⟨raw, hraw, htoken⟩ := List.mem_filterMap.mp hmem
  obtain ⟨own, segments, honce, hsegments, hown, hparams⟩ := tokenize_parts htoken
  obtain ⟨before, key, param, after, rfl, hkey, hdecoded⟩ := param_segment htzid hparams
  have hline : dateTimeLine name (.zoned at_ zone) =
      name ++ ';' :: ("TZID".toList ++ '=' :: (zone.name ++ ':' :: formatLocal at_)) := by
    simp [dateTimeLine, hutc]
  have hrawEq := splitOnceUnquotedFrom_eq honce
  -- every part of what is read is at least as long as what was written for it
  have hownLength : own.length = name.length := by rw [← length_upper own, ← hown, hnamed, length_upper]
  have hkeyLength : 4 ≤ key.length := by
    have hupper : upper (upper (trimChars key)) = upper "TZID".toList := of_decide_eq_true hkey
    have hlength := congrArg List.length hupper
    rw [length_upper, length_upper, length_upper] at hlength
    have hle := (trimChars_sublist key).length_le
    have hfour : "TZID".toList.length = 4 := by decide
    omega
  have hdecode := length_decodeParam_le (unquote (trimChars param))
  have hunquote := (unquote_sublist (trimChars param)).length_le
  have htrim := (trimChars_sublist param).length_le
  rw [hdecoded, ← hsame] at hdecode
  have hvalueLength : 15 ≤ line.value.length := by
    have hle := (trimChars_sublist line.value).length_le
    rw [length_of_parseLocal hlocal] at hle
    exact hle
  have hclock := length_formatLocal (parseLocal_valid hlocal)
  have hwritten : (dateTimeLine name (.zoned at_ zone)).length = name.length + 6 + zone.name.length + 16 := by
    rw [hline]
    simp only [List.length_append, List.length_cons, hclock]
    have hfour : "TZID".toList.length = 4 := by decide
    omega
  have hrawLength := congrArg List.length hrawEq
  simp only [List.length_append, List.length_cons, List.flatMap_append, List.flatMap_cons] at hrawLength
  obtain ⟨hwhole, hno⟩ := mem_unfold_foldLine hraw (by omega) (by
    intro hnil
    rw [hnil] at hrawLength
    simp at hrawLength)
  rw [hwhole, hwritten] at hrawLength
  -- and so exactly as long, and the same
  have hempty : ∀ others : List Text, (others.flatMap fun segment => ';' :: segment).length = 0 → others = [] := by
    intro others hzero
    cases others with
    | nil => rfl
    | cons other others => simp at hzero
  obtain rfl := hempty before (by omega)
  obtain rfl := hempty after (by omega)
  rw [hwhole, hline] at hrawEq honce
  simp only [List.nil_append, List.flatMap_cons, List.flatMap_nil, List.append_nil] at hrawEq honce hsegments
  rw [List.append_assoc] at hrawEq
  obtain ⟨hnameSame, hrest⟩ := List.append_inj hrawEq hownLength.symm
  rw [List.cons_append, List.append_assoc] at hrest
  obtain ⟨hkeySame, hrest⟩ := List.append_inj (List.cons.inj hrest).2 (by
    have hfour : "TZID".toList.length = 4 := by decide
    omega)
  rw [List.cons_append] at hrest
  obtain ⟨hparamSame, hvalueSame⟩ := List.append_inj (List.cons.inj hrest).2 (by omega)
  obtain rfl := hnameSame
  obtain rfl := hkeySame
  rw [← hparamSame] at hdecode hdecoded hunquote htrim honce hsegments
  rw [← (List.cons.inj hvalueSame).2] at honce
  obtain ⟨hcolon, hclosed⟩ := (splitOnceUnquoted_param_iff hname isKey_tzid).mp honce
  have hunquoted : unquote (trimChars zone.name) = trimChars zone.name :=
    (unquote_sublist (trimChars zone.name)).eq_of_length (by omega)
  have htrimmed : trimChars zone.name = zone.name := (trimChars_sublist zone.name).eq_of_length (by omega)
  rw [hunquoted, htrimmed] at hdecoded
  rw [htrimmed] at hunquoted
  exact {
    noFeed := fun hmem => hno (by rw [hline]; simp [hmem])
    noColon := hcolon
    noSemicolon := (splitUnquoted_param_iff hname isKey_tzid).mp hsegments
    closed := hclosed
    notQuoted := unquote_eq_iff.mp hunquoted
    trimmed := htrimmed ▸ trimmed_trimChars
    noEscape := noEscape_of_length (by rw [hdecoded, hsame]) }

/-- The line of a value that was read, folded, reads as the value exactly when its zone is UTC, there is none, or the
zone's name stands bare. -/
theorem dateTimeLine_read_iff (hname : IsName name) (hne : name ≠ []) (hvalue : IsRead value) :
    (∃ line, contentLines (foldLine (dateTimeLine name value) crlf) = [line] ∧ line.name = upper name ∧
        parseCalendarDateTime windowsToIana line = .ok value) ↔
      ∀ at_ zone, value = .zoned at_ zone → zone ≠ .utc → StandsBare zone.name := by
  constructor
  · rintro ⟨line, hread, hnamed, hparse⟩ at_ zone rfl hutc
    exact standsBare_of_read hname hutc hread hnamed hparse
  · exact dateTimeLine_read hname hne hvalue

/-- Nine o'clock on the first of September 2025. -/
def nine : LocalDateTime := ⟨⟨2025, 9, 1⟩, 9, 0, 0⟩

theorem isName_dtstart : IsName "DTSTART".toList := by
  unfold IsName
  decide

theorem dateTimeLine_read_iff_amsterdam :
    ∃ line, contentLines (foldLine (dateTimeLine "DTSTART".toList (.zoned nine (.iana "Europe/Amsterdam".toList))) crlf) =
        [line] ∧ line.name = upper "DTSTART".toList ∧
      parseCalendarDateTime windowsToIana line = .ok (.zoned nine (.iana "Europe/Amsterdam".toList)) := by
  have hread : IsRead (.zoned nine (.iana "Europe/Amsterdam".toList)) := by
    refine ⟨"DTSTART;TZID=Europe/Amsterdam:20250901T090000\n".toList,
      ⟨"DTSTART".toList, [("TZID".toList, "Europe/Amsterdam".toList)], "20250901T090000".toList⟩, ?_, ?_⟩
    · decide
    · decide
  apply (dateTimeLine_read_iff isName_dtstart (by decide) hread).mpr
  rintro at_ zone hzone -
  obtain ⟨-, rfl⟩ := CalendarDateTime.zoned.inj hzone
  exact standsBare_of_plain (by decide)

/-- A quoted zone name with a semicolon is written without its quotes, and cut at the semicolon when it is read. -/
theorem quoted_zone_is_cut : ¬ ∀ (name : Text) (value : CalendarDateTime), IsName name → name ≠ [] → IsRead value →
      ∃ line, contentLines (foldLine (dateTimeLine name value) crlf) = [line] ∧ line.name = upper name ∧
        parseCalendarDateTime windowsToIana line = .ok value := by
  intro h
  have hread : IsRead (.zoned nine (.custom "Room 1; upstairs".toList)) := by
    refine ⟨"DTSTART;TZID=\"Room 1; upstairs\":20250901T090000\n".toList,
      ⟨"DTSTART".toList, [("TZID".toList, "Room 1; upstairs".toList)], "20250901T090000".toList⟩, ?_, ?_⟩
    · decide
    · decide
  obtain ⟨line, hlines, -, hparse⟩ := h "DTSTART".toList _ isName_dtstart (by decide) hread
  have hcut : contentLines (foldLine (dateTimeLine "DTSTART".toList (.zoned nine (.custom "Room 1; upstairs".toList))) crlf) =
      [⟨"DTSTART".toList, [("TZID".toList, "Room 1".toList)], "20250901T090000".toList⟩] := by decide
  have hother : parseCalendarDateTime windowsToIana
      ⟨"DTSTART".toList, [("TZID".toList, "Room 1".toList)], "20250901T090000".toList⟩ =
      .ok (.zoned nine (.custom "Room 1".toList)) := by decide
  rw [hcut] at hlines
  obtain rfl := (List.cons.inj hlines).1
  rw [hother] at hparse
  revert hparse
  decide

end Back

end Ical
end SyncEngine
