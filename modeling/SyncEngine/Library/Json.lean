import Mathlib

/-!
# JSON values

Values as far as programs take them apart: numbers are integers, and an object gives the first value of a key.
-/

namespace SyncEngine

inductive Json
  | null
  | bool (b : Bool)
  | num (n : Int)
  | str (s : String)
  | arr (items : List Json)
  | obj (fields : List (String × Json))

namespace Json

def get : Json → String → Option Json
  | obj fields, key => fields.lookup key
  | _, _ => none

def asStr : Json → Option String
  | str s => some s
  | _ => none

def asArray : Json → Option (List Json)
  | arr items => some items
  | _ => none

def asU64 : Json → Option Nat
  | num n => if 0 ≤ n ∧ n < 2 ^ 64 then some n.toNat else none
  | _ => none

def asI64 : Json → Option Int
  | num n => if -(2 ^ 63) ≤ n ∧ n < 2 ^ 63 then some n else none
  | _ => none

def set (value : Json) (key : String) (field : Json) : Json :=
  match value with
  | obj fields => obj ((key, field) :: fields.filter (·.1 != key))
  | other => other

/-- A field that is text. -/
def optStr (value : Json) (key : String) : Option String := (value.get key).bind asStr

theorem asU64_num {n : Nat} (h : n < 2 ^ 64) : asU64 (num n) = some n := by
  have hle : (0 : Int) ≤ n ∧ (n : Int) < 2 ^ 64 := ⟨Int.natCast_nonneg n, by exact_mod_cast h⟩
  simp only [asU64, if_pos hle, Int.toNat_natCast]

@[simp] theorem get_obj_cons_self (key : String) (field : Json) (fields : List (String × Json)) :
    (obj ((key, field) :: fields)).get key = some field := by
  simp [get]

theorem get_obj_cons_of_ne {key key' : String} (h : key ≠ key') (field : Json) (fields : List (String × Json)) :
    (obj ((key', field) :: fields)).get key = (obj fields).get key := by
  simp [get, List.lookup_cons, beq_false_of_ne h]

@[simp] theorem get_set_self (fields : List (String × Json)) (key : String) (field : Json) :
    ((obj fields).set key field).get key = some field := get_obj_cons_self _ _ _

theorem get_set_of_ne {key key' : String} (h : key ≠ key') (value field : Json) :
    (value.set key' field).get key = value.get key := by
  cases value with
  | obj fields =>
    refine (get_obj_cons_of_ne h field _).trans ?_
    induction fields with
    | nil => rfl
    | cons entry fields ih =>
      obtain ⟨name, value⟩ := entry
      by_cases hname : name = key'
      · rw [List.filter_cons_of_neg (by simp [hname]), ih, get_obj_cons_of_ne (hname ▸ h)]
      · rw [List.filter_cons_of_pos (by simp [hname])]
        by_cases hkey : key = name
        · rw [hkey, get_obj_cons_self, get_obj_cons_self]
        · rw [get_obj_cons_of_ne hkey, get_obj_cons_of_ne hkey, ih]
  | null => rfl
  | bool b => rfl
  | num n => rfl
  | str s => rfl
  | arr items => rfl

/-! ## Optional fields -/

def present (fields : List (String × Option Json)) : List (String × Json) :=
  fields.filterMap fun field => field.2.map fun value => (field.1, value)

/-- Fields with names of their own are read back as they were written, a field left out as none. -/
theorem get_obj_present {fields : List (String × Option Json)} (h : (fields.map Prod.fst).Nodup) (key : String) :
    (obj (present fields)).get key = (fields.lookup key).join := by
  induction fields with
  | nil => rfl
  | cons field fields ih =>
    obtain ⟨name, value⟩ := field
    rw [List.map_cons, List.nodup_cons] at h
    have hrest := ih h.2
    cases value with
    | none =>
      have hcons : present ((name, none) :: fields) = present fields := List.filterMap_cons_none rfl
      rw [hcons, hrest]
      by_cases hkey : key = name
      · have hnone : fields.lookup key = none := by
          rw [List.lookup_eq_none_iff]
          intro entry hentry
          have hmem : entry.1 ∈ fields.map Prod.fst := List.mem_map_of_mem hentry
          have hne : key ≠ entry.1 := fun heq => h.1 (hkey ▸ heq ▸ hmem)
          simpa using hne
        rw [hnone, hkey, List.lookup_cons_self]
        rfl
      · rw [List.lookup_cons, beq_false_of_ne hkey]
    | some value =>
      have hcons : present ((name, some value) :: fields) = (name, value) :: present fields := List.filterMap_cons_some rfl
      rw [hcons]
      by_cases hkey : key = name
      · rw [hkey, get_obj_cons_self, List.lookup_cons_self]
        rfl
      · rw [get_obj_cons_of_ne hkey, hrest, List.lookup_cons, beq_false_of_ne hkey]

end Json
end SyncEngine
