import Mathlib
import SyncEngine.Ical.TextLines

/-!
# Dates and times that are written and read back

A date or a time is read back from its line as it was, but for one in a zone whose name does not stand as a parameter
value without quotes and escapes: the writer puts the name in as it is.
-/

namespace SyncEngine
namespace Ical

/-!
## Zone names

The Windows names of time zones, and what each is called in the IANA database.  The table is in the order of the Windows
names, and no name is in it twice.
-/

def windowsZones : List (String × String) := [
  ("AUS Central Standard Time", "Australia/Darwin"),
  ("AUS Eastern Standard Time", "Australia/Sydney"),
  ("Afghanistan Standard Time", "Asia/Kabul"),
  ("Alaskan Standard Time", "America/Anchorage"),
  ("Aleutian Standard Time", "America/Adak"),
  ("Altai Standard Time", "Asia/Barnaul"),
  ("Arab Standard Time", "Asia/Riyadh"),
  ("Arabian Standard Time", "Asia/Dubai"),
  ("Arabic Standard Time", "Asia/Baghdad"),
  ("Argentina Standard Time", "America/Buenos_Aires"),
  ("Astrakhan Standard Time", "Europe/Astrakhan"),
  ("Atlantic Standard Time", "America/Halifax"),
  ("Aus Central W. Standard Time", "Australia/Eucla"),
  ("Azerbaijan Standard Time", "Asia/Baku"),
  ("Azores Standard Time", "Atlantic/Azores"),
  ("Bahia Standard Time", "America/Bahia"),
  ("Bangladesh Standard Time", "Asia/Dhaka"),
  ("Belarus Standard Time", "Europe/Minsk"),
  ("Bougainville Standard Time", "Pacific/Bougainville"),
  ("Canada Central Standard Time", "America/Regina"),
  ("Cape Verde Standard Time", "Atlantic/Cape_Verde"),
  ("Caucasus Standard Time", "Asia/Yerevan"),
  ("Cen. Australia Standard Time", "Australia/Adelaide"),
  ("Central America Standard Time", "America/Guatemala"),
  ("Central Asia Standard Time", "Asia/Bishkek"),
  ("Central Brazilian Standard Time", "America/Cuiaba"),
  ("Central Europe Standard Time", "Europe/Budapest"),
  ("Central European Standard Time", "Europe/Warsaw"),
  ("Central Pacific Standard Time", "Pacific/Guadalcanal"),
  ("Central Standard Time", "America/Chicago"),
  ("Central Standard Time (Mexico)", "America/Mexico_City"),
  ("Chatham Islands Standard Time", "Pacific/Chatham"),
  ("China Standard Time", "Asia/Shanghai"),
  ("Cuba Standard Time", "America/Havana"),
  ("Dateline Standard Time", "Etc/GMT+12"),
  ("E. Africa Standard Time", "Africa/Nairobi"),
  ("E. Australia Standard Time", "Australia/Brisbane"),
  ("E. Europe Standard Time", "Europe/Chisinau"),
  ("E. South America Standard Time", "America/Sao_Paulo"),
  ("Easter Island Standard Time", "Pacific/Easter"),
  ("Eastern Standard Time", "America/New_York"),
  ("Eastern Standard Time (Mexico)", "America/Cancun"),
  ("Egypt Standard Time", "Africa/Cairo"),
  ("Ekaterinburg Standard Time", "Asia/Yekaterinburg"),
  ("FLE Standard Time", "Europe/Kiev"),
  ("Fiji Standard Time", "Pacific/Fiji"),
  ("GMT Standard Time", "Europe/London"),
  ("GTB Standard Time", "Europe/Bucharest"),
  ("Georgian Standard Time", "Asia/Tbilisi"),
  ("Greenland Standard Time", "America/Godthab"),
  ("Greenwich Standard Time", "Atlantic/Reykjavik"),
  ("Haiti Standard Time", "America/Port-au-Prince"),
  ("Hawaiian Standard Time", "Pacific/Honolulu"),
  ("India Standard Time", "Asia/Calcutta"),
  ("Iran Standard Time", "Asia/Tehran"),
  ("Israel Standard Time", "Asia/Jerusalem"),
  ("Jordan Standard Time", "Asia/Amman"),
  ("Kaliningrad Standard Time", "Europe/Kaliningrad"),
  ("Korea Standard Time", "Asia/Seoul"),
  ("Libya Standard Time", "Africa/Tripoli"),
  ("Line Islands Standard Time", "Pacific/Kiritimati"),
  ("Lord Howe Standard Time", "Australia/Lord_Howe"),
  ("Magadan Standard Time", "Asia/Magadan"),
  ("Magallanes Standard Time", "America/Punta_Arenas"),
  ("Marquesas Standard Time", "Pacific/Marquesas"),
  ("Mauritius Standard Time", "Indian/Mauritius"),
  ("Middle East Standard Time", "Asia/Beirut"),
  ("Montevideo Standard Time", "America/Montevideo"),
  ("Morocco Standard Time", "Africa/Casablanca"),
  ("Mountain Standard Time", "America/Denver"),
  ("Mountain Standard Time (Mexico)", "America/Mazatlan"),
  ("Myanmar Standard Time", "Asia/Rangoon"),
  ("N. Central Asia Standard Time", "Asia/Novosibirsk"),
  ("Namibia Standard Time", "Africa/Windhoek"),
  ("Nepal Standard Time", "Asia/Katmandu"),
  ("New Zealand Standard Time", "Pacific/Auckland"),
  ("Newfoundland Standard Time", "America/St_Johns"),
  ("Norfolk Standard Time", "Pacific/Norfolk"),
  ("North Asia East Standard Time", "Asia/Irkutsk"),
  ("North Asia Standard Time", "Asia/Krasnoyarsk"),
  ("North Korea Standard Time", "Asia/Pyongyang"),
  ("Omsk Standard Time", "Asia/Omsk"),
  ("Pacific SA Standard Time", "America/Santiago"),
  ("Pacific Standard Time", "America/Los_Angeles"),
  ("Pacific Standard Time (Mexico)", "America/Tijuana"),
  ("Pakistan Standard Time", "Asia/Karachi"),
  ("Paraguay Standard Time", "America/Asuncion"),
  ("Qyzylorda Standard Time", "Asia/Qyzylorda"),
  ("Romance Standard Time", "Europe/Paris"),
  ("Russia Time Zone 10", "Asia/Srednekolymsk"),
  ("Russia Time Zone 11", "Asia/Kamchatka"),
  ("Russia Time Zone 3", "Europe/Samara"),
  ("Russian Standard Time", "Europe/Moscow"),
  ("SA Eastern Standard Time", "America/Cayenne"),
  ("SA Pacific Standard Time", "America/Bogota"),
  ("SA Western Standard Time", "America/La_Paz"),
  ("SE Asia Standard Time", "Asia/Bangkok"),
  ("Saint Pierre Standard Time", "America/Miquelon"),
  ("Sakhalin Standard Time", "Asia/Sakhalin"),
  ("Samoa Standard Time", "Pacific/Apia"),
  ("Sao Tome Standard Time", "Africa/Sao_Tome"),
  ("Saratov Standard Time", "Europe/Saratov"),
  ("Singapore Standard Time", "Asia/Singapore"),
  ("South Africa Standard Time", "Africa/Johannesburg"),
  ("South Sudan Standard Time", "Africa/Juba"),
  ("Sri Lanka Standard Time", "Asia/Colombo"),
  ("Sudan Standard Time", "Africa/Khartoum"),
  ("Syria Standard Time", "Asia/Damascus"),
  ("Taipei Standard Time", "Asia/Taipei"),
  ("Tasmania Standard Time", "Australia/Hobart"),
  ("Tocantins Standard Time", "America/Araguaina"),
  ("Tokyo Standard Time", "Asia/Tokyo"),
  ("Tomsk Standard Time", "Asia/Tomsk"),
  ("Tonga Standard Time", "Pacific/Tongatapu"),
  ("Transbaikal Standard Time", "Asia/Chita"),
  ("Turkey Standard Time", "Europe/Istanbul"),
  ("Turks And Caicos Standard Time", "America/Grand_Turk"),
  ("US Eastern Standard Time", "America/Indianapolis"),
  ("US Mountain Standard Time", "America/Phoenix"),
  ("UTC", "Etc/UTC"),
  ("UTC+12", "Etc/GMT-12"),
  ("UTC+13", "Etc/GMT-13"),
  ("UTC-02", "Etc/GMT+2"),
  ("UTC-08", "Etc/GMT+8"),
  ("UTC-09", "Etc/GMT+9"),
  ("UTC-11", "Etc/GMT+11"),
  ("Ulaanbaatar Standard Time", "Asia/Ulaanbaatar"),
  ("Venezuela Standard Time", "America/Caracas"),
  ("Vladivostok Standard Time", "Asia/Vladivostok"),
  ("Volgograd Standard Time", "Europe/Volgograd"),
  ("W. Australia Standard Time", "Australia/Perth"),
  ("W. Central Africa Standard Time", "Africa/Lagos"),
  ("W. Europe Standard Time", "Europe/Berlin"),
  ("W. Mongolia Standard Time", "Asia/Hovd"),
  ("West Asia Standard Time", "Asia/Tashkent"),
  ("West Bank Standard Time", "Asia/Hebron"),
  ("West Pacific Standard Time", "Pacific/Port_Moresby"),
  ("Yakutsk Standard Time", "Asia/Yakutsk"),
  ("Yukon Standard Time", "America/Whitehorse")]

def windowsToIana (name : Text) : Option Text :=
  (windowsZones.find? fun zone => zone.1 = String.ofList name).map fun zone => zone.2.toList

/-- What a name in the table looks like: letters, digits and a few signs, and so nothing that ends a parameter. -/
def isPlain (c : Char) : Bool := c.isAlphanum || c = '/' || c = '_' || c = '-' || c = '+'

section ZoneTable

variable {s : String} {name iana : Text} {c : Char}

def stringBytes (s : String) : List UInt8 := s.toByteArray.data.toList

theorem stringBytes_eq (s : String) : stringBytes s = Utf8.bytes s.toList := by
  unfold stringBytes
  rw [← String.utf8Encode_toList]
  exact List.toList_data_toByteArray

theorem slash_mem_iff : (47 : UInt8) ∈ stringBytes s ↔ '/' ∈ s.toList := by
  rw [stringBytes_eq]
  unfold Utf8.bytes
  rw [List.mem_flatMap]
  constructor
  · rintro ⟨c, hc, hbyte⟩
    by_cases hlow : c.toNat < 128
    · rw [Utf8.encode_of_lt hlow, List.mem_singleton] at hbyte
      have hcode : c.toNat = '/'.toNat := by
        rw [← Utf8.ascii_toNat hlow, ← hbyte]
        rfl
      exact Char.toNat_inj.mp hcode ▸ hc
    · have hhigh := Utf8.high_of_le (Nat.le_of_not_lt hlow) _ hbyte
      exact absurd hhigh (by decide)
  · exact fun hc => ⟨'/', hc, List.mem_singleton_self _⟩

def isPlainByte (b : UInt8) : Bool := b.toNat < 128 && isPlain (Char.ofNat b.toNat)

theorem isPlain_of_bytes (h : ∀ b ∈ stringBytes s, isPlainByte b = true) (hc : c ∈ s.toList) : isPlain c = true := by
  rw [stringBytes_eq] at h
  have hbytes : ∀ b ∈ String.utf8EncodeChar c, isPlainByte b = true := fun b hb => h b (List.mem_flatMap.mpr ⟨c, hc, hb⟩)
  by_cases hlow : c.toNat < 128
  · have hbyte := hbytes (Utf8.ascii c) (by rw [Utf8.encode_of_lt hlow]; exact List.mem_singleton_self _)
    unfold isPlainByte at hbyte
    rw [Utf8.ascii_toNat hlow, Char.ofNat_toNat, Bool.and_eq_true] at hbyte
    exact hbyte.2
  · obtain ⟨b, hb⟩ : ∃ b, b ∈ String.utf8EncodeChar c := by
      apply List.exists_mem_of_length_pos
      rw [String.length_utf8EncodeChar]
      exact c.utf8Size_pos
    have hbyte := hbytes b hb
    have hhigh := Utf8.high_of_le (Nat.le_of_not_lt hlow) b hb
    simp only [isPlainByte, Bool.and_eq_true, decide_eq_true_eq] at hbyte
    omega

theorem windowsZones_plain : windowsZones.all (fun zone => !(stringBytes zone.1).contains 47 &&
    (stringBytes zone.2).contains 47 && (stringBytes zone.2).all isPlainByte) = true := by
  decide

theorem windowsToIana_plain (h : windowsToIana name = some iana) : '/' ∈ iana ∧ ∀ c ∈ iana, isPlain c = true := by
  obtain ⟨zone, hfound, rfl⟩ := Option.map_eq_some_iff.mp h
  have hzone := List.all_eq_true.mp windowsZones_plain zone (List.mem_of_find?_eq_some hfound)
  simp only [Bool.and_eq_true, List.contains_eq_mem, decide_eq_true_eq, List.all_eq_true] at hzone
  exact ⟨slash_mem_iff.mp hzone.1.2, fun c hc => isPlain_of_bytes hzone.2 hc⟩

theorem windowsToIana_slash (h : '/' ∈ name) : windowsToIana name = none := by
  unfold windowsToIana
  rw [Option.map_eq_none_iff, List.find?_eq_none]
  intro zone hzone hname
  have hplain := List.all_eq_true.mp windowsZones_plain zone hzone
  simp only [Bool.and_eq_true, List.contains_eq_mem, Bool.not_eq_true', decide_eq_false_iff_not] at hplain
  rw [of_decide_eq_true hname, slash_mem_iff, String.toList_ofList] at hplain
  exact hplain.1.1 h

end ZoneTable

/-! ## Splitting -/

section Splitting

variable {text head value segment after : Text} {delim : Char} {quoted : Bool}

theorem map_cons_eq_some {c : Char} {parts : Option (Text × Text)} {head tail : Text}
    (h : (parts.map fun (head, tail) => (c :: head, tail)) = some (head, tail)) :
    ∃ rest, head = c :: rest ∧ parts = some (rest, tail) := by
  obtain ⟨⟨rest, tail'⟩, hparts, hpair⟩ := Option.map_eq_some_iff.mp h
  obtain ⟨rfl, rfl⟩ := Prod.mk.inj hpair
  exact ⟨rest, rfl, hparts⟩

theorem splitOnceUnquotedFrom_eq (h : splitOnceUnquotedFrom delim quoted text = some (head, value)) :
    text = head ++ delim :: value := by
  induction text generalizing quoted head with
  | nil => cases h
  | cons c text ih =>
    rw [splitOnceUnquotedFrom] at h
    split at h
    · obtain ⟨head', rfl, hsplit⟩ := map_cons_eq_some h
      rw [ih hsplit]
      rfl
    · split at h
      · rename_i hdelim
        simp only [Bool.and_eq_true, decide_eq_true_eq] at hdelim
        obtain ⟨rfl, rfl⟩ := Prod.mk.inj (Option.some.inj h)
        rw [hdelim.1]
        rfl
      · obtain ⟨head', rfl, hsplit⟩ := map_cons_eq_some h
        rw [ih hsplit]
        rfl

theorem splitUnquotedFrom_eq (segment text : Text) : ∃ first rest, splitUnquotedFrom delim quoted [] text = first :: rest ∧
    splitUnquotedFrom delim quoted segment text = (segment ++ first) :: rest ∧
    text = first ++ rest.flatMap fun other => delim :: other := by
  induction text generalizing quoted segment with
  | nil => exact ⟨[], [], rfl, by simp [splitUnquotedFrom], rfl⟩
  | cons c text ih =>
    have hgrown : ∀ quoted (segment : Text), ∃ first rest, splitUnquotedFrom delim quoted [c] text = first :: rest ∧
        splitUnquotedFrom delim quoted (segment ++ [c]) text = (segment ++ first) :: rest ∧
        c :: text = first ++ rest.flatMap fun other => delim :: other := by
      intro quoted segment
      obtain ⟨first, rest, hnil, hone, htext⟩ := @ih quoted [c]
      obtain ⟨first', rest', hnil', hboth, -⟩ := @ih quoted (segment ++ [c])
      rw [hnil] at hnil'
      obtain ⟨rfl, rfl⟩ := List.cons.inj hnil'
      refine ⟨c :: first, rest, hone, ?_, by rw [htext]; rfl⟩
      rw [hboth, List.append_assoc]
      rfl
    rw [splitUnquotedFrom, splitUnquotedFrom]
    split
    · exact hgrown _ segment
    · split
      · rename_i hdelim
        simp only [Bool.and_eq_true, decide_eq_true_eq] at hdelim
        obtain ⟨first, rest, hnil, -, htext⟩ := @ih quoted []
        refine ⟨[], first :: rest, by rw [hnil], by rw [hnil, List.append_nil], ?_⟩
        rw [htext, hdelim.1]
        rfl
      · exact hgrown _ segment

end Splitting

/-! ## How much a reader gets -/

section Total

variable {lines : List Text} {raw read line term : Text} {c : Char}

def total (lines : List Text) : Nat := (lines.map List.length).sum

theorem total_append (a b : List Text) : total (a ++ b) = total a + total b := by
  unfold total
  rw [List.map_append, List.sum_append]

theorem total_unfoldLine_le : total (unfoldLine lines raw) ≤ total lines + (stripReturn raw).length := by
  have hpush : total (lines ++ [stripReturn raw]) = total lines + (stripReturn raw).length := by
    rw [total_append]
    simp [total]
  unfold unfoldLine
  dsimp only
  split
  · rename_i c rest last hline hlast
    split
    · have hlines : lines = lines.dropLast ++ [last] := (List.dropLast_append_getLast? last hlast).symm
      have htotal : total lines = total lines.dropLast + last.length := by
        conv_lhs => rw [hlines, total_append]
        simp [total]
      rw [total_append, htotal, hline]
      simp [total]
      omega
    · exact Nat.le_of_eq hpush
  · exact Nat.le_of_eq hpush

theorem total_unfoldLine_space (hne : lines ≠ []) {done : Text} (h : stripReturn raw = ' ' :: done) :
    total (unfoldLine lines raw) = total lines + done.length := by
  obtain ⟨front, last, rfl⟩ : ∃ front last, lines = front ++ [last] :=
    ⟨lines.dropLast, lines.getLast hne, (List.dropLast_append_getLast hne).symm⟩
  rw [unfoldLine_space h, total_append, total_append]
  simp [total, Nat.add_assoc]

theorem stripReturn_concat : stripReturn (raw ++ ['\r']) = raw := by
  unfold stripReturn
  rw [List.getLast?_concat, if_pos rfl, List.dropLast_concat]

theorem length_stripReturn_le : (stripReturn raw).length ≤ raw.length := by
  unfold stripReturn
  split
  · simp
  · exact Nat.le_refl _

/-- A reader gets no more than what was folded, and the less by every line feed in it. -/
theorem total_foldFrom (line : Text) : ∀ (read : Text) (octets : Nat) (lines : List Text) (extra : Nat), '\n' ∉ read →
    (∀ more : Text, total (unfoldLine lines (read ++ more)) ≤ total lines + extra + more.length) →
    (∀ more : Text, total (unfoldLine lines (read ++ more ++ ['\r'])) ≤ total lines + extra + more.length) →
    total (((read ++ foldFrom crlf octets line).splitOn '\n').foldl unfoldLine lines) + line.count '\n' ≤
      total lines + extra + line.length := by
  have hfresh : ∀ lines : List Text, (∀ more : Text, total (unfoldLine lines ([] ++ more)) ≤ total lines + 0 + more.length) ∧
      ∀ more : Text, total (unfoldLine lines ([] ++ more ++ ['\r'])) ≤ total lines + 0 + more.length := by
    intro lines
    constructor
    · intro more
      have hle := @total_unfoldLine_le lines ([] ++ more)
      have hlength := @length_stripReturn_le ([] ++ more)
      rw [List.nil_append] at hle hlength ⊢
      omega
    · intro more
      have hle := @total_unfoldLine_le lines ([] ++ more ++ ['\r'])
      rw [stripReturn_concat, List.nil_append] at hle
      rw [List.nil_append]
      omega
  induction line with
  | nil =>
    intro read octets lines extra hread _ hreturn
    have hno : '\n' ∉ read ++ ['\r'] := by simpa using hread
    have hsplit : (read ++ foldFrom crlf octets []).splitOn '\n' = [read ++ ['\r'], []] := by
      have htext : read ++ foldFrom crlf octets [] = (read ++ ['\r']) ++ '\n' :: [] := by simp [foldFrom, crlf]
      rw [htext, List.splitOn_append_cons_self_of_not_mem hno, List.splitOn_nil]
    have hlast := hreturn []
    have hend := @total_unfoldLine_le (unfoldLine lines (read ++ ['\r'])) []
    rw [List.append_nil] at hlast
    rw [hsplit, List.foldl_cons, List.foldl_cons, List.foldl_nil]
    simp only [stripReturn, List.count_nil, List.length_nil] at hend hlast ⊢
    simp at hend
    omega
  | cons c line ih =>
    intro read octets lines extra hread hgrow hreturn
    have hcount : (c :: line).count '\n' = line.count '\n' + if c = '\n' then 1 else 0 := by
      rw [List.count_cons]
      simp
    rw [hcount, List.length_cons]
    unfold foldFrom
    split
    · -- the line is folded here, and what comes next goes on with it
      have hno : '\n' ∉ read ++ ['\r'] := by simpa using hread
      have htext : read ++ (crlf ++ ' ' :: c :: foldFrom crlf (1 + c.utf8Size) line) =
          (read ++ ['\r']) ++ '\n' :: (' ' :: c :: foldFrom crlf (1 + c.utf8Size) line) := by simp [crlf]
      have hfirst := hreturn []
      rw [List.append_nil, List.length_nil] at hfirst
      rw [htext, List.splitOn_append_cons_self_of_not_mem hno, List.foldl_cons]
      generalize hnext : unfoldLine lines (read ++ ['\r']) = next at hfirst
      have hne : next ≠ [] := hnext ▸ unfoldLine_ne_nil
      by_cases hc : c = '\n'
      · rw [if_pos hc, hc]
        have hblank : (' ' :: '\n' :: foldFrom crlf (1 + '\n'.utf8Size) line).splitOn '\n' =
            [' '] :: (foldFrom crlf (1 + '\n'.utf8Size) line).splitOn '\n' :=
          List.splitOn_append_cons_self_of_not_mem (by decide : '\n' ∉ [' ']) _
        have htotal : total (unfoldLine next [' ']) = total next + ([] : Text).length := total_unfoldLine_space hne rfl
        rw [List.length_nil] at htotal
        have hrest := ih [] (1 + '\n'.utf8Size) (unfoldLine next [' ']) 0 (by simp) (hfresh _).1 (hfresh _).2
        rw [List.nil_append] at hrest
        rw [hblank, List.foldl_cons]
        omega
      · rw [if_neg hc]
        have hspaced : ∀ more : Text, total (unfoldLine next ([' ', c] ++ more ++ ['\r'])) ≤ total next + 1 + more.length := by
          intro more
          have htotal : total (unfoldLine next ([' ', c] ++ more ++ ['\r'])) = total next + (c :: more).length :=
            total_unfoldLine_space hne stripReturn_concat
          rw [htotal, List.length_cons]
          omega
        have hopen : ∀ more : Text, total (unfoldLine next ([' ', c] ++ more)) ≤ total next + 1 + more.length := by
          intro more
          obtain ⟨done, hstrip, hdone⟩ : ∃ done, stripReturn ([' ', c] ++ more) = ' ' :: done ∧
              done.length ≤ 1 + more.length := by
            unfold stripReturn
            split
            · refine ⟨(c :: more).dropLast, rfl, ?_⟩
              rw [List.length_dropLast, List.length_cons]
              omega
            · exact ⟨c :: more, rfl, by rw [List.length_cons]; omega⟩
          rw [total_unfoldLine_space hne hstrip]
          omega
        have hrest := ih [' ', c] (1 + c.utf8Size) next 1 (by simp [Ne.symm hc]) hopen hspaced
        have hsame : ([' ', c] ++ foldFrom crlf (1 + c.utf8Size) line) = ' ' :: c :: foldFrom crlf (1 + c.utf8Size) line := rfl
        rw [hsame] at hrest
        omega
    · by_cases hc : c = '\n'
      · rw [if_pos hc, hc, List.splitOn_append_cons_self_of_not_mem hread, List.foldl_cons]
        have hfirst := hgrow []
        rw [List.append_nil, List.length_nil] at hfirst
        have hrest := ih [] (octets + '\n'.utf8Size) (unfoldLine lines read) 0 (by simp) (hfresh _).1 (hfresh _).2
        rw [List.nil_append] at hrest
        omega
      · rw [if_neg hc]
        have hno : '\n' ∉ read ++ [c] := by simp [hread, Ne.symm hc]
        have hrest := ih (read ++ [c]) (octets + c.utf8Size) lines (extra + 1) hno (fun more => by
            have h := hgrow (c :: more)
            rw [List.length_cons] at h
            rw [List.append_assoc, List.singleton_append]
            omega)
          (fun more => by
            have h := hreturn (c :: more)
            rw [List.length_cons] at h
            have hsame : read ++ [c] ++ more ++ ['\r'] = read ++ c :: more ++ ['\r'] := by simp
            rw [hsame]
            omega)
        have hsame : read ++ c :: foldFrom crlf (octets + c.utf8Size) line =
            (read ++ [c]) ++ foldFrom crlf (octets + c.utf8Size) line := by simp
        rw [hsame]
        omega

/-- A line a reader gets is shorter than what was folded, unless that has no line feed: then it is read whole. -/
theorem mem_unfold_foldLine (hraw : raw ∈ unfold (foldLine line crlf)) (hlength : line.length ≤ raw.length)
    (hne : raw ≠ []) : raw = line ∧ '\n' ∉ line := by
  have htotal : total (unfold (foldLine line crlf)) + line.count '\n' ≤ line.length := by
    have h := total_foldFrom line [] 0 [] 0 (by simp) (fun more => by
        have hle := @total_unfoldLine_le [] ([] ++ more)
        have hstrip := @length_stripReturn_le ([] ++ more)
        rw [List.nil_append] at hle hstrip ⊢
        omega)
      (fun more => by
        have hle := @total_unfoldLine_le [] ([] ++ more ++ ['\r'])
        rw [stripReturn_concat, List.nil_append] at hle
        rw [List.nil_append]
        omega)
    have hzero : total [] = 0 := rfl
    rw [hzero, Nat.zero_add] at h
    exact h
  have hmember : raw.length ≤ total (unfold (foldLine line crlf)) :=
    List.le_sum_of_mem (List.mem_map.mpr ⟨raw, hraw, rfl⟩)
  have hno : '\n' ∉ line := List.count_eq_zero.mp (by omega)
  have hwhole : unfold (foldLine line crlf) = [line, []] :=
    unfold_foldLine isTerm_crlf fun c hc => ⟨fun e => hno (e ▸ hc), fun e => nomatch e⟩
  rw [hwhole] at hraw
  simp only [List.mem_cons, List.not_mem_nil, or_false] at hraw
  exact ⟨hraw.resolve_right hne, hno⟩

end Total

/-! ## Numbers in columns -/

section Columns

variable {width n : Nat} {text before block after : Text}

theorem padded_eq (width n : Nat) : padded width n = zeroPadded width n := by
  have hdigits : (toString n).toList = decimal n := by
    show (Nat.repr n).toList = _
    unfold Nat.repr decimal
    exact String.toList_ofList
  unfold padded Mail.CalendarDate.padded
  dsimp only
  rw [String.toList_append, String.toList_ofList, hdigits, zeroPadded_eq, ← hdigits, String.length_toList]

theorem number_eq (text : Text) : number text = digitsValue text := rfl

theorem number_padded : number (padded width n) = n := by
  rw [number_eq, padded_eq]
  exact digitsValue_zeroPadded

theorem length_padded (hwidth : 0 < width) (hn : n < 10 ^ width) : (padded width n).length = width := by
  rw [padded_eq]
  exact length_zeroPadded hwidth hn

theorem isDigits_padded (width n : Nat) : isDigits (padded width n) = true := by
  rw [padded_eq]
  exact List.all_eq_true.mpr isDigits_zeroPadded

theorem field_middle {first last : Nat} (hfirst : before.length = first) (hlast : first + block.length = last) :
    field (before ++ (block ++ after)) first last = number block := by
  unfold field
  rw [← hfirst, List.drop_left, ← hlast, ← hfirst, Nat.add_sub_cancel_left, List.take_left]

end Columns

/-! ## Values -/

section Values

variable {text : Text}

/-- A day the format can hold. -/
def Date.Valid (d : Date) : Prop := d.year < 10 ^ 4 ∧ Date.new? d.year d.month d.day = some d

def LocalDateTime.Valid (t : LocalDateTime) : Prop :=
  t.date.Valid ∧ LocalDateTime.new? t.date.year t.date.month t.date.day t.hour t.minute t.second = some t

theorem daysInMonth_le (year month : Nat) : daysInMonth year month ≤ 31 := by
  unfold daysInMonth
  split
  · split <;> omega
  · split <;> omega

variable {d : Date}

theorem Date.Valid.bounds (h : d.Valid) : d.month < 10 ^ 2 ∧ d.day < 10 ^ 2 := by
  have hnew := h.2
  unfold Date.new? at hnew
  split at hnew
  · rename_i hin
    simp only [Bool.and_eq_true, decide_eq_true_eq] at hin
    have hle := daysInMonth_le d.year d.month
    omega
  · exact nomatch hnew

variable {t : LocalDateTime}

theorem LocalDateTime.Valid.bounds (h : t.Valid) : t.hour < 10 ^ 2 ∧ t.minute < 10 ^ 2 ∧ t.second < 10 ^ 2 := by
  have hnew := h.2
  unfold LocalDateTime.new? at hnew
  split at hnew
  · rename_i hin
    simp only [Bool.and_eq_true, decide_eq_true_eq] at hin
    omega
  · exact nomatch hnew

theorem length_formatDate (h : d.Valid) : (formatDate d).length = 8 := by
  unfold formatDate
  rw [List.length_append, List.length_append, length_padded (by decide) h.1, length_padded (by decide) h.bounds.1,
    length_padded (by decide) h.bounds.2]

theorem isDigits_append (a b : Text) : isDigits (a ++ b) = (isDigits a && isDigits b) := List.all_append

theorem isDigits_formatDate (d : Date) : isDigits (formatDate d) = true := by
  unfold formatDate
  rw [isDigits_append, isDigits_append, isDigits_padded, isDigits_padded, isDigits_padded]
  rfl

theorem field_formatDate (h : d.Valid) (after : Text) :
    field (formatDate d ++ after) 0 4 = d.year ∧ field (formatDate d ++ after) 4 6 = d.month ∧
      field (formatDate d ++ after) 6 8 = d.day := by
  have hyear := @length_padded 4 d.year (by decide) h.1
  have hmonth := @length_padded 2 d.month (by decide) h.bounds.1
  have hday := @length_padded 2 d.day (by decide) h.bounds.2
  unfold formatDate
  refine ⟨?_, ?_, ?_⟩
  · have htext : padded 4 d.year ++ padded 2 d.month ++ padded 2 d.day ++ after =
        [] ++ (padded 4 d.year ++ (padded 2 d.month ++ padded 2 d.day ++ after)) := by simp
    rw [htext, field_middle (List.length_nil : ([] : Text).length = 0) (by omega), number_padded]
  · have htext : padded 4 d.year ++ padded 2 d.month ++ padded 2 d.day ++ after =
        padded 4 d.year ++ (padded 2 d.month ++ (padded 2 d.day ++ after)) := by simp
    rw [htext, field_middle hyear (by omega), number_padded]
  · rw [List.append_assoc, field_middle (by rw [List.length_append]; omega) (by omega), number_padded]

theorem parseDate_formatDate (h : d.Valid) : parseDate (formatDate d) = .ok d := by
  have hfields := field_formatDate h []
  rw [List.append_nil] at hfields
  unfold parseDate
  rw [if_neg (by simp [length_formatDate h, isDigits_formatDate]), hfields.1, hfields.2.1, hfields.2.2, h.2]

theorem length_formatLocal (h : t.Valid) : (formatLocal t).length = 15 := by
  unfold formatLocal
  rw [List.length_append, List.length_append, List.length_append, List.length_cons, length_formatDate h.1,
    length_padded (by decide) h.bounds.1, length_padded (by decide) h.bounds.2.1, length_padded (by decide) h.bounds.2.2]

theorem parseLocal_formatLocal (h : t.Valid) : parseLocal (formatLocal t) = .ok t := by
  have hdate := length_formatDate h.1
  have hhour := @length_padded 2 t.hour (by decide) h.bounds.1
  have hminute := @length_padded 2 t.minute (by decide) h.bounds.2.1
  have hsecond := @length_padded 2 t.second (by decide) h.bounds.2.2
  have htext : formatLocal t = formatDate t.date ++ ('T' :: padded 2 t.hour ++ padded 2 t.minute ++ padded 2 t.second) := by
    unfold formatLocal
    simp
  have hfields := field_formatDate h.1 ('T' :: padded 2 t.hour ++ padded 2 t.minute ++ padded 2 t.second)
  rw [← htext] at hfields
  have hhours : field (formatLocal t) 9 11 = t.hour := by
    have hsplit : formatLocal t = (formatDate t.date ++ ['T']) ++ (padded 2 t.hour ++ (padded 2 t.minute ++ padded 2 t.second)) := by
      unfold formatLocal
      simp
    rw [hsplit, field_middle (by rw [List.length_append, hdate]; rfl) (by omega), number_padded]
  have hminutes : field (formatLocal t) 11 13 = t.minute := by
    have hsplit : formatLocal t = (formatDate t.date ++ 'T' :: padded 2 t.hour) ++ (padded 2 t.minute ++ padded 2 t.second) := by
      unfold formatLocal
      simp
    rw [hsplit, field_middle (by rw [List.length_append, List.length_cons]; omega) (by omega), number_padded]
  have hseconds : field (formatLocal t) 13 15 = t.second := by
    have hsplit : formatLocal t = (formatDate t.date ++ 'T' :: padded 2 t.hour ++ padded 2 t.minute) ++ (padded 2 t.second ++ []) := by
      unfold formatLocal
      simp
    rw [hsplit, field_middle (by rw [List.length_append, List.length_append, List.length_cons]; omega) (by omega),
      number_padded]
  have hform : (decide ((formatLocal t).length = 15) && ((formatLocal t).drop 8).head?.any (fun c => c = 'T' || c = 't') &&
      isDigits ((formatLocal t).take 8) && isDigits ((formatLocal t).drop 9)) = true := by
    have hafter : (formatLocal t).drop 9 = padded 2 t.hour ++ padded 2 t.minute ++ padded 2 t.second := by
      have hsplit : formatLocal t = (formatDate t.date ++ ['T']) ++ (padded 2 t.hour ++ padded 2 t.minute ++ padded 2 t.second) := by
        unfold formatLocal
        simp
      rw [hsplit, List.drop_left' (by rw [List.length_append, hdate]; rfl)]
    rw [length_formatLocal h, hafter, htext, List.drop_left' hdate, List.take_left' hdate, isDigits_append, isDigits_append,
      isDigits_formatDate, isDigits_padded, isDigits_padded, isDigits_padded]
    rfl
  unfold parseLocal
  rw [if_pos hform, hfields.1, hfields.2.1, hfields.2.2, hhours, hminutes, hseconds, h.2]

theorem number_lt (h : isDigits text = true) : number text < 10 ^ text.length := digitsValue_lt (List.all_eq_true.mp h)

theorem isDigits_take (h : isDigits text = true) (n : Nat) : isDigits (text.take n) = true :=
  List.all_eq_true.mpr fun c hc => List.all_eq_true.mp h c (List.mem_of_mem_take hc)

theorem new?_valid {year month day : Nat} (hyear : year < 10 ^ 4) (h : Date.new? year month day = some d) : d.Valid := by
  have hnew := h
  unfold Date.new? at h
  split at h
  · obtain rfl := Option.some.inj h
    exact ⟨hyear, hnew⟩
  · exact nomatch h

theorem year_lt (h : isDigits (text.take 8) = true) : field text 0 4 < 10 ^ 4 := by
  have hdigits := isDigits_take h 4
  rw [List.take_take] at hdigits
  have hlt := number_lt hdigits
  have hle : 10 ^ (text.take (min 4 8)).length ≤ 10 ^ 4 := Nat.pow_le_pow_right (by decide) (by simp)
  exact Nat.lt_of_lt_of_le hlt hle

theorem parseDate_valid (h : parseDate text = .ok d) : d.Valid := by
  unfold parseDate at h
  split at h
  · exact nomatch h
  · rename_i hform
    simp only [ne_eq, Bool.or_eq_true, decide_eq_true_eq, Bool.not_eq_true', not_or, Bool.not_eq_false, not_not] at hform
    split at h
    · rename_i d' hnew
      obtain rfl := Except.ok.inj h
      exact new?_valid (year_lt (isDigits_take hform.2 8)) hnew
    · exact nomatch h

theorem parseLocal_valid (h : parseLocal text = .ok t) : t.Valid := by
  unfold parseLocal at h
  split at h
  · rename_i hform
    simp only [Bool.and_eq_true] at hform
    split at h
    · rename_i t' hnew
      obtain rfl := Except.ok.inj h
      have hnew' := hnew
      unfold LocalDateTime.new? at hnew'
      split at hnew'
      · obtain ⟨d, hd, rfl⟩ := Option.map_eq_some_iff.mp hnew'
        have hvalid := new?_valid (year_lt hform.1.2) hd
        refine ⟨hvalid, ?_⟩
        have hsame : d = ⟨field text 0 4, field text 4 6, field text 6 8⟩ := by
          unfold Date.new? at hd
          split at hd
          · exact (Option.some.inj hd).symm
          · exact nomatch hd
        rw [hsame] at hnew ⊢
        exact hnew
      · exact nomatch hnew'
    · exact nomatch h
  · exact nomatch h

theorem not_isWhiteSpace_of_isDigit {c : Char} (h : c.isDigit = true) : isWhiteSpace c = false := by
  have hbounds := digit_bounds h
  unfold isWhiteSpace
  simp only [Bool.or_eq_false_iff, Bool.and_eq_false_iff, decide_eq_false_iff_not, beq_eq_false_iff_ne]
  omega

theorem trimmed_of_isDigits (h : isDigits text = true) : Trimmed text :=
  trimmed_of_forall fun c hc => not_isWhiteSpace_of_isDigit (List.all_eq_true.mp h c hc)

end Values

end Ical
end SyncEngine
