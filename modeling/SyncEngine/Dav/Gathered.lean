import SyncEngine.Dav.Server

/-!
# What a pass gathers

The answer a pass reads was true when the journal had `m` entries, and its bodies may have been fetched later.
`Filled` is what each response is worth once no body is missing: its resources were gone, or the member's body was
the current one, at some time since.
-/

namespace SyncEngine
namespace Dav

open Journal

/-! ## Filling in bodies -/

variable {responses : List DavResponse}

theorem fillSlot_eq_map {href : String} {f : DavResponse → DavResponse}
    (h : (responses.map fun r => pathKey r.href).Nodup) :
    fillSlot href f responses = responses.map fun r => if samePath r.href href then f r else r := by
  induction responses with
  | nil => rfl
  | cons r rest ih =>
    rw [List.map_cons, List.nodup_cons] at h
    rw [fillSlot, List.map_cons]
    by_cases hrest : (rest.any fun r => samePath r.href href) = true
    · rw [if_pos hrest, ih h.2]
      have hr : samePath r.href href = false := by
        obtain ⟨r', hr', hsame⟩ := List.any_eq_true.mp hrest
        rw [Bool.eq_false_iff]
        intro hs
        simp only [samePath, beq_iff_eq] at hs hsame
        exact h.1 (List.mem_map.mpr ⟨r', hr', hsame.trans hs.symm⟩)
      simp [hr]
    · rw [if_neg hrest]
      have hnone : rest.map (fun r => if samePath r.href href then f r else r) = rest := by
        rw [Bool.not_eq_true, List.any_eq_false] at hrest
        rw [List.map_congr_left (g := id), List.map_id]
        intro r hr
        simp [hrest r hr]
      rw [hnone]
      by_cases hs : samePath r.href href = true
      · simp [hs]
      · simp [hs]

variable (r : DavResponse)

@[simp] theorem href_gone : r.gone.href = r.href := rfl

@[simp] theorem gone_gone : r.gone.gone = r.gone := rfl

@[simp] theorem href_withProps (props : Props) (r : DavResponse) : (r.withProps props).href = r.href := rfl

/-- What one response of a multiget makes of one of the report. -/
def fillOne (r found : DavResponse) : DavResponse :=
  if found.isRemoved then
    if found.hrefs.any fun h => samePath r.href h then r.gone else r
  else if found.props.data.isNone then r
  else if samePath r.href found.href then r.withProps found.props
  else r

@[simp]
theorem hrefs_fillOne (r found : DavResponse) : (fillOne r found).hrefs = r.hrefs := by
  unfold fillOne
  split
  · split <;> rfl
  · split
    · rfl
    · split <;> rfl

theorem foldl_fillSlot_removed {hrefs : List String} (h : (responses.map fun r => pathKey r.href).Nodup) :
    hrefs.foldl (fun rs href => fillSlot href DavResponse.gone rs) responses = responses.map fun r =>
        if hrefs.any fun h => samePath r.href h then r.gone else r := by
  induction hrefs generalizing responses with
  | nil => simp
  | cons href hrefs ih =>
    rw [List.foldl_cons, fillSlot_eq_map h, ih, List.map_map]
    · refine List.map_congr_left fun r _ => ?_
      by_cases hs : samePath r.href href = true
      · by_cases hr : (hrefs.any fun h => samePath r.href h) = true
        · simp [hs, hr]
        · simp [hs]
      · simp [hs]
    · rw [List.map_map]
      have hsame : (fun r : DavResponse => pathKey r.href) ∘ (fun r => if samePath r.href href then r.gone else r) =
          fun r => pathKey r.href := by
        funext r
        dsimp only [Function.comp]
        split <;> rfl
      rw [hsame]
      exact h

theorem fillFrom_eq_map (found : DavResponse) (h : (responses.map fun r => pathKey r.href).Nodup) :
    fillFrom responses found = responses.map fun r => fillOne r found := by
  unfold fillFrom fillOne
  by_cases hr : found.isRemoved = true
  · simp only [hr, if_true]
    exact foldl_fillSlot_removed h
  · by_cases hd : found.props.data.isNone = true
    · simp [hr, hd]
    · simp only [hr, hd, if_false, Bool.false_eq_true]
      exact fillSlot_eq_map h

theorem filled_responses {report : MultiStatus} (fetched : MultiStatus)
    (h : (report.responses.map fun r => pathKey r.href).Nodup) :
    (report.filled fetched).responses = report.responses.map fun r => fetched.responses.foldl fillOne r := by
  unfold MultiStatus.filled
  dsimp only
  generalize report.responses = responses at h ⊢
  induction fetched.responses generalizing responses with
  | nil => simp
  | cons found rest ih =>
    rw [List.foldl_cons, fillFrom_eq_map found h, ih, List.map_map]
    · rfl
    · rw [List.map_map]
      have hsame : (fun r : DavResponse => pathKey r.href) ∘ (fun r => fillOne r found) = fun r => pathKey r.href := by
        funext r
        simp [DavResponse.href]
      rw [hsame]
      exact h

theorem hrefs_foldl_fillOne (found : List DavResponse) (r : DavResponse) : (found.foldl fillOne r).hrefs = r.hrefs :=
  foldl_frame DavResponse.hrefs fillOne hrefs_fillOne found r

/-! ## What a response is worth -/

namespace Server

variable (sv : Server)

/-- A response once no body is missing. -/
inductive Filled (log : Log) (m : Nat) (r : DavResponse) : Prop
  | removed : r.isRemoved = true →
      (∀ h ∈ r.hrefs, sv.member h = true ∧ Found log m h none) → Filled log m r
  | member (h : String) (res : Resource) : r.isRemoved = false → r.hrefs = [h] →
      sv.member h = true → valueAt log m h ≠ none → Found log m h (some res) →
      r.props = res.props → Filled log m r
  | own (h : String) : r.isRemoved = false → r.hrefs = [h] → samePath h sv.collection = true →
      Filled log m r

/-- A member whose body is still to be fetched. -/
structure Bodiless (log : Log) (m : Nat) (h : String) (r : DavResponse) : Prop where
  kept : r.isRemoved = false
  only : r.hrefs = [h]
  member : sv.member h = true
  listed : valueAt log m h ≠ none

def Waiting (log : Log) (m : Nat) (pending : List String) (r : DavResponse) : Prop :=
  sv.Filled log m r ∨ ∃ h ∈ pending, sv.Bodiless log m h r

variable {sv} {log log' : Log} {m : Nat} {r found : DavResponse} {h : String}

theorem Filled.grow (hf : sv.Filled log m r) (hlog : log <+: log') (hm : m ≤ log.length) : sv.Filled log' m r := by
  cases hf with
  | removed hr hrefs =>
    refine .removed hr fun h hh => ⟨(hrefs h hh).1, (hrefs h hh).2.grow hlog⟩
  | member h res hr hrefs hmem hat hfound hprops =>
    rw [← valueAt_grow hlog hm] at hat
    exact .member h res hr hrefs hmem hat (hfound.grow hlog) hprops
  | own h hr hrefs hown => exact .own h hr hrefs hown

variable {pending : List String}

theorem Waiting.grow (hw : sv.Waiting log m pending r) (hlog : log <+: log')
    (hm : m ≤ log.length) : sv.Waiting log' m pending r := by
  rcases hw with hf | ⟨h, hp, hb⟩
  · exact .inl (hf.grow hlog hm)
  · refine .inr ⟨h, hp, hb.kept, hb.only, hb.member, ?_⟩
    rw [valueAt_grow hlog hm]
    exact hb.listed

theorem eq_of_samePath {h' : String} (hm : sv.member h = true) (hm' : sv.member h' = true)
    (hs : samePath h h' = true) : h = h' :=
  sv.distinct h h' hm hm' hs

theorem not_samePath_own {own : String} (hm : sv.member h = true)
    (ho : samePath own sv.collection = true) : samePath h own = false := by
  rw [Bool.eq_false_iff]
  intro hs
  have hapart := sv.apart h hm
  simp only [samePath, beq_iff_eq, beq_eq_false_iff_ne] at hs ho hapart
  exact hapart (hs.trans ho)

theorem href_eq (hr : r.hrefs = [h]) : r.href = h := by
  rw [DavResponse.href, hr]
  rfl

theorem fillOne_of_absent (hm : sv.member h = true) (hv : value log h = none)
    (hf : sv.Tells log found) (hr : r.hrefs = [h]) :
    fillOne r found = if found.hrefs.contains h then r.gone else r := by
  unfold fillOne
  rw [href_eq hr]
  cases hf with
  | removed hrem _ hrefs =>
    rw [if_pos hrem]
    congr 1
    rw [eq_iff_iff, List.any_eq_true, List.contains_iff_mem]
    constructor
    · intro ⟨h', hh', hs⟩
      rw [eq_of_samePath hm (hrefs h' hh').1 hs]
      exact hh'
    · intro hh
      exact ⟨h, hh, by simp [samePath]⟩
  | member h' res hrem hrefs hm' hv' hprops =>
    have hne : h ≠ h' := by
      intro e
      rw [← e, hv] at hv'
      exact nomatch hv'
    have hs : samePath h h' = false := by
      rw [Bool.eq_false_iff]
      exact fun hs => hne (eq_of_samePath hm hm' hs)
    rw [href_eq hrefs, hrefs]
    simp [hrem, hs, hne]
  | own own hrem hrefs hown =>
    have hs := not_samePath_own hm hown
    have hne : h ≠ own := by
      intro e
      rw [e] at hs
      simp [samePath] at hs
    rw [href_eq hrefs, hrefs]
    simp [hrem, hs, hne]

variable {res : Resource}

/-- Where a member is there, a true response that names it has its body, and no other touches it. -/
theorem fillOne_of_present (hm : sv.member h = true) (hv : value log h = some res) (hf : sv.Tells log found)
    (hwhole : ∀ h, found.isRemoved = false → found.hrefs = [h] → sv.member h = true →
      ∃ res, value log h = some res ∧ found.props = res.props)
    (hr : r.hrefs = [h]) :
    fillOne r found = if found.hrefs.contains h then r.withProps res.props else r := by
  unfold fillOne
  rw [href_eq hr]
  cases hf with
  | removed hrem _ hrefs =>
    have hnot : ∀ h' ∈ found.hrefs, samePath h h' = false := by
      intro h' hh'
      rw [Bool.eq_false_iff]
      intro hs
      have hnone := (hrefs h' hh').2
      rw [← eq_of_samePath hm (hrefs h' hh').1 hs, hv] at hnone
      exact nomatch hnone
    have hmem : h ∉ found.hrefs := by
      intro hh
      have hs := hnot h hh
      simp [samePath] at hs
    rw [if_pos hrem, if_neg, if_neg]
    · simpa using hmem
    · rw [List.any_eq_true]
      intro ⟨h', hh', hs⟩
      rw [hnot h' hh'] at hs
      exact nomatch hs
  | member h' res' hrem hrefs hm' hv' hprops =>
    obtain ⟨res'', hv'', hbody⟩ := hwhole h' hrem hrefs hm'
    rw [href_eq hrefs, hrefs, hbody]
    by_cases he : h = h'
    · have hres : res'' = res := by
        rw [← he, hv] at hv''
        exact (Option.some.inj hv'').symm
      simp [hrem, he, hres, samePath, Resource.props]
    · have hs : samePath h h' = false := by
        rw [Bool.eq_false_iff]
        exact fun hs => he (eq_of_samePath hm hm' hs)
      simp [hrem, he, hs]
  | own own hrem hrefs hown =>
    have hs := not_samePath_own hm hown
    have hne : h ≠ own := by
      intro e
      rw [e] at hs
      simp [samePath] at hs
    rw [href_eq hrefs, hrefs]
    simp [hrem, hs, hne]

variable {fetched : MultiStatus}

theorem any_contains_iff : (fetched.responses.any fun found => found.hrefs.contains h) = true ↔ h ∈ fetched.names := by
  simp [MultiStatus.names, List.any_eq_true, List.mem_flatMap]

variable {hrefs : List String}

theorem Bodiless.fill (hb : sv.Bodiless log m h r) (hf : sv.Bodies log hrefs fetched) (hm : m ≤ log.length) :
    (h ∈ fetched.names ∧ sv.Filled log m (fetched.responses.foldl fillOne r)) ∨
      (h ∉ fetched.names ∧ fetched.responses.foldl fillOne r = r) := by
  cases hv : value log h with
  | none =>
    have hfold := foldl_absorb (I := fun r : DavResponse => r.hrefs = [h]) (g := DavResponse.gone)
      (fun found => found.hrefs.contains h) (fun _ hr => hr) gone_gone
      (fun found hfound r hr => fillOne_of_absent hb.member hv (hf.truthful.tells found hfound) hr)
      hb.only
    rw [hfold]
    by_cases hn : h ∈ fetched.names
    · rw [if_pos (any_contains_iff.mpr hn)]
      refine .inl ⟨hn, .removed rfl ?_⟩
      intro h' hh'
      have he : h' = h := by
        have hmem : h' ∈ r.hrefs := hh'
        rwa [hb.only, List.mem_singleton] at hmem
      rw [he, ← hv]
      exact ⟨hb.member, found_now hm⟩
    · rw [if_neg (fun ha => hn (any_contains_iff.mp ha))]
      exact .inr ⟨hn, rfl⟩
  | some res =>
    have hfold := foldl_absorb (I := fun r : DavResponse => r.hrefs = [h]) (g := DavResponse.withProps res.props)
      (fun found => found.hrefs.contains h) (fun _ hr => hr) (fun _ => rfl)
      (fun found hfound r hr => fillOne_of_present hb.member hv (hf.truthful.tells found hfound)
        (hf.whole found hfound) hr)
      hb.only
    rw [hfold]
    by_cases hn : h ∈ fetched.names
    · rw [if_pos (any_contains_iff.mpr hn)]
      refine .inl ⟨hn, .member h res hb.kept hb.only hb.member hb.listed ?_ rfl⟩
      rw [← hv]
      exact found_now hm
    · rw [if_neg (fun ha => hn (any_contains_iff.mp ha))]
      exact .inr ⟨hn, rfl⟩

theorem isRemoved_fillOne (hr : r.isRemoved = true) : (fillOne r found).isRemoved = true := by
  unfold fillOne
  split
  · split
    · rfl
    · exact hr
  · split
    · exact hr
    · split
      · exact hr
      · exact hr

theorem isRemoved_fillOne_own (hf : sv.Tells log found) (hr : r.isRemoved = false)
    (hrefs : r.hrefs = [h]) (hown : samePath h sv.collection = true) :
    (fillOne r found).isRemoved = false := by
  unfold fillOne
  rw [href_eq hrefs]
  cases hf with
  | removed hrem _ hall =>
    rw [if_pos hrem, if_neg]
    · exact hr
    · rw [List.any_eq_true]
      intro ⟨h', hh', hs⟩
      have hno := not_samePath_own (hall h' hh').1 hown
      simp only [samePath, beq_iff_eq, beq_eq_false_iff_ne] at hs hno
      exact hno hs.symm
  | member h' res hrem _ _ _ _ =>
    simp only [hrem, Bool.false_eq_true, if_false]
    split
    · exact hr
    · split
      · exact hr
      · exact hr
  | own h' hrem _ _ =>
    simp only [hrem, Bool.false_eq_true, if_false]
    split
    · exact hr
    · split
      · exact hr
      · exact hr

theorem Waiting.fill {rest : List String} (hw : sv.Waiting log m (hrefs ++ rest) r) (hf : sv.Bodies log hrefs fetched)
    (hm : m ≤ log.length) : sv.Waiting log m rest (fetched.responses.foldl fillOne r) := by
  rcases hw with hfilled | ⟨h, hp, hb⟩
  · cases hfilled with
    | removed hr hall =>
      refine .inl (.removed ?_ ?_)
      · exact List.foldlRecOn (motive := fun r => r.isRemoved = true) fetched.responses fillOne hr
          fun r hr found _ => isRemoved_fillOne hr
      · rw [hrefs_foldl_fillOne]
        exact hall
    | member h res hr honly hmem hat hfound hprops =>
      have hb : sv.Bodiless log m h r := ⟨hr, honly, hmem, hat⟩
      rcases hb.fill hf hm with ⟨-, hfilled⟩ | ⟨-, hsame⟩
      · exact .inl hfilled
      · rw [hsame]
        exact .inl (.member h res hr honly hmem hat hfound hprops)
    | own h hr honly hown =>
      refine .inl (.own h ?_ ?_ hown)
      · refine (List.foldlRecOn (motive := fun r => r.hrefs = [h] ∧ r.isRemoved = false)
          fetched.responses fillOne ⟨honly, hr⟩ ?_).2
        intro r hr found hfound
        exact ⟨(hrefs_fillOne r found).trans hr.1, isRemoved_fillOne_own (hf.truthful.tells found hfound) hr.2 hr.1 hown⟩
      · rw [hrefs_foldl_fillOne, honly]
  · rcases hb.fill hf hm with ⟨-, hfilled⟩ | ⟨hn, hsame⟩
    · exact .inl hfilled
    · rw [hsame]
      rcases List.mem_append.mp hp with hp | hp
      · exact absurd (hf.asked h hp hb.member) hn
      · exact .inr ⟨h, hp, hb⟩

theorem Tells.waiting (ht : sv.Tells (log.take m) r) (hm : m ≤ log.length)
    (hp : r.isMember sv.collection = true → r.props.data = none → r.href ∈ pending) :
    sv.Waiting log m pending r := by
  have hat : ∀ h, Found log m h (value (log.take m) h) := fun h => ⟨m, Nat.le_refl m, hm, rfl⟩
  cases ht with
  | removed hr _ hall =>
    refine .inl (.removed hr fun h hh => ⟨(hall h hh).1, ?_⟩)
    rw [← (hall h hh).2]
    exact hat h
  | member h res hr honly hmem hv hprops =>
    have hlisted : valueAt log m h ≠ none := by
      rw [valueAt, hv]
      exact Option.some_ne_none res
    rcases hprops with hprops | hprops
    · refine .inl (.member h res hr honly hmem hlisted ?_ hprops)
      rw [← hv]
      exact hat h
    · refine .inr ⟨h, ?_, hr, honly, hmem, hlisted⟩
      have hin := hp
      rw [DavResponse.isMember, href_eq honly, hr, sv.apart h hmem, hprops] at hin
      exact hin rfl rfl
  | own h hr honly hown => exact .inl (.own h hr honly hown)

/-! ## What an update is built from -/

def reads {ε : Type} (reader : String → Props → Option ε) (h : String) (res : Resource) : Option ε :=
  reader h res.props

variable {ε : Type} {reader : String → Props → Option ε}

/-- What the parts of an update are worth that was built from an answer naming `names`. -/
structure Gathered (sv : Server) (reader : String → Props → Option ε) (log : Log) (m : Nat)
    (names : List String) (changed : List (ProviderKey × ε)) (removed present : List ProviderKey) :
    Prop where
  gone : ∀ k ∈ removed, Found log m k none
  listed : ∀ k ∈ present, valueAt log m k ≠ none
  read : ∀ k b, (k, b) ∈ changed →
    valueAt log m k ≠ none ∧ ∃ res, Found log m k (some res) ∧ reads reader k res = some b
  within : ∀ k, k ∈ removed ∨ k ∈ present ∨ (∃ b, (k, b) ∈ changed) → k ∈ names
  named : ∀ k ∈ names, sv.member k = true → k ∈ removed ∨ (k ∈ present ∧
    ∃ res, Found log m k (some res) ∧ ∀ b, reads reader k res = some b → (k, b) ∈ changed)

variable {b : ε}

theorem object_eq_some {key : ProviderKey} (hr : r.object reader = some (key, b)) :
    key = r.href ∧ r.props.data.isSome = true ∧ reader r.href r.props = some b := by
  unfold DavResponse.object hrefKey at hr
  cases hd : r.props.data with
  | none =>
    rw [hd] at hr
    exact nomatch hr
  | some data =>
    rw [hd] at hr
    by_cases he : r.href.isEmpty = true
    · rw [if_pos he] at hr
      exact nomatch hr
    · rw [if_neg he] at hr
      cases hb : reader r.href r.props with
      | none =>
        simp [hb] at hr
      | some b' =>
        simp [hb] at hr
        exact ⟨hr.1.symm, rfl, congrArg some hr.2⟩

theorem object_of_props (hmem : sv.member h = true) (honly : r.hrefs = [h])
    (hprops : r.props = res.props) (hb : reads reader h res = some b) :
    r.object reader = some (h, b) := by
  unfold DavResponse.object hrefKey
  rw [href_eq honly, hprops, sv.named h hmem]
  show ((some res.data).bind fun _ => (some h).bind fun key => (reader key res.props).bind fun object =>
    some (key, object)) = some (h, b)
  rw [Option.bind_some, Option.bind_some, show reader h res.props = some b from hb]
  rfl

theorem mem_keys {k : ProviderKey} (hk : k ∈ r.keys) : k ∈ r.hrefs := by
  obtain ⟨h, hh, he⟩ := List.mem_filterMap.mp hk
  unfold hrefKey at he
  split at he
  · exact nomatch he
  · rw [← Option.some.inj he]
    exact hh

theorem keys_of_mem (hmem : sv.member h = true) (hh : h ∈ r.hrefs) : h ∈ r.keys := by
  refine List.mem_filterMap.mpr ⟨h, hh, ?_⟩
  rw [hrefKey, sv.named h hmem]
  rfl

theorem Filled.isMember (hf : sv.Filled log m r) (hr : r.isMember sv.collection = true) :
    ∃ h res, r.hrefs = [h] ∧ sv.member h = true ∧ valueAt log m h ≠ none ∧
      Found log m h (some res) ∧ r.props = res.props := by
  unfold DavResponse.isMember at hr
  cases hf with
  | removed hrem _ =>
    rw [hrem] at hr
    exact nomatch hr
  | member h res hrem honly hmem hat hfound hprops =>
    exact ⟨h, res, honly, hmem, hat, hfound, hprops⟩
  | own h hrem honly hown =>
    rw [href_eq honly, hown, hrem] at hr
    exact nomatch hr

theorem Filled.isRemoved (hf : sv.Filled log m r) (hr : r.isRemoved = true) :
    ∀ h ∈ r.hrefs, sv.member h = true ∧ Found log m h none := by
  cases hf with
  | removed _ hall => exact hall
  | member h res hrem _ _ _ _ _ =>
    rw [hrem] at hr
    exact nomatch hr
  | own h hrem _ _ =>
    rw [hrem] at hr
    exact nomatch hr

theorem gathered {responses : List DavResponse} (hf : ∀ r ∈ responses, sv.Filled log m r) :
    sv.Gathered reader log m (responses.flatMap (·.hrefs))
      ((responses.filter (·.isMember sv.collection)).filterMap (·.object reader))
      ((responses.filter (·.isRemoved)).flatMap (·.keys))
      ((responses.filter (·.isMember sv.collection)).flatMap (·.keys)) := by
  refine ⟨?_, ?_, ?_, ?_, ?_⟩
  · intro k hk
    obtain ⟨r, hr, hk⟩ := List.mem_flatMap.mp hk
    obtain ⟨hr, hrem⟩ := List.mem_filter.mp hr
    exact ((hf r hr).isRemoved hrem k (mem_keys hk)).2
  · intro k hk
    obtain ⟨r, hr, hk⟩ := List.mem_flatMap.mp hk
    obtain ⟨hr, hmem⟩ := List.mem_filter.mp hr
    obtain ⟨h, res, honly, -, hat, -, -⟩ := (hf r hr).isMember hmem
    have hkh := mem_keys hk
    rw [honly, List.mem_singleton] at hkh
    rw [hkh]
    exact hat
  · intro k b hk
    obtain ⟨r, hr, ho⟩ := List.mem_filterMap.mp hk
    obtain ⟨hr, hmem⟩ := List.mem_filter.mp hr
    obtain ⟨h, res, honly, -, hat, hfound, hprops⟩ := (hf r hr).isMember hmem
    obtain ⟨hkey, -, hread⟩ := object_eq_some ho
    rw [href_eq honly] at hkey hread
    rw [hprops] at hread
    rw [hkey]
    exact ⟨hat, res, hfound, hread⟩
  · intro k hk
    rcases hk with hk | hk | ⟨b, hk⟩
    · obtain ⟨r, hr, hk⟩ := List.mem_flatMap.mp hk
      exact List.mem_flatMap.mpr ⟨r, (List.mem_filter.mp hr).1, mem_keys hk⟩
    · obtain ⟨r, hr, hk⟩ := List.mem_flatMap.mp hk
      exact List.mem_flatMap.mpr ⟨r, (List.mem_filter.mp hr).1, mem_keys hk⟩
    · obtain ⟨r, hr, ho⟩ := List.mem_filterMap.mp hk
      obtain ⟨hr, hmem⟩ := List.mem_filter.mp hr
      obtain ⟨h, res, honly, -⟩ := (hf r hr).isMember hmem
      refine List.mem_flatMap.mpr ⟨r, hr, ?_⟩
      rw [(object_eq_some ho).1, href_eq honly, honly]
      exact List.mem_singleton.mpr rfl
  · intro k hk hmem
    obtain ⟨r, hr, hk⟩ := List.mem_flatMap.mp hk
    cases hf r hr with
    | removed hrem _ =>
      refine .inl (List.mem_flatMap.mpr ⟨r, List.mem_filter.mpr ⟨hr, hrem⟩, keys_of_mem hmem hk⟩)
    | member h res hrem honly hm hat hfound hprops =>
      have hkh : k = h := by rwa [honly, List.mem_singleton] at hk
      have hrm : r.isMember sv.collection = true := by
        rw [DavResponse.isMember, href_eq honly, hrem, sv.apart h hm]
        rfl
      have hrmem := List.mem_filter.mpr ⟨hr, hrm⟩
      refine .inr ⟨List.mem_flatMap.mpr ⟨r, hrmem, keys_of_mem hmem hk⟩, res, ?_, ?_⟩
      · rw [hkh]
        exact hfound
      · intro b hb
        rw [hkh] at hb ⊢
        exact List.mem_filterMap.mpr ⟨r, hrmem, object_of_props hm honly hprops hb⟩
    | own h hrem honly hown =>
      have hkh : k = h := by rwa [honly, List.mem_singleton] at hk
      have hapart := sv.apart k hmem
      rw [hkh, hown] at hapart
      exact nomatch hapart

end Server

end Dav
end SyncEngine
