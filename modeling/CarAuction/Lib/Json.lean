import Mathlib.Data.List.Basic

/- JavaScript values on their way through JSON. A value is `undefined`, `null`, an
   atom (a number, a string, a boolean, a date: whatever `α` has) or an object with
   its own keys. `get` reads a property; on `undefined` and `null` it throws, and a
   property that is missing reads as `undefined`. `carry` is what
   `JSON.parse(JSON.stringify(v))` gives: properties that are `undefined` are dropped,
   `null` stays, and `toJSON` turns an atom into the one that arrives.

   `get_carry`: a property reads the same before and after the journey, so a chain of
   hops is the reads of each hop at the value it was given. -/
namespace Js

inductive Value (α : Type) where
  | undefined
  | null
  | atom (a : α)
  | object (keys : List String) (value : String → Value α)

namespace Value

variable {α : Type} {v : Value α} {key : String} {fields : List (String × Value α)}

/-- An object literal. -/
def obj (fields : List (String × Value α)) : Value α :=
  object (fields.map Prod.fst) fun key => (fields.lookup key).getD undefined

/-- `v.key`; `none` is a `TypeError`. -/
def get : Value α → String → Option (Value α)
  | undefined, _ => none
  | null, _ => none
  | atom _, _ => some undefined
  | object keys value, key => some (if key ∈ keys then value key else undefined)

/-- `v?.key`. -/
def get? (v : Value α) (key : String) : Value α := (v.get key).getD undefined

def isUndefined : Value α → Bool
  | undefined => true
  | _ => false

def carry (toJSON : α → α) : Value α → Value α
  | undefined => undefined
  | null => null
  | atom a => atom (toJSON a)
  | object keys value =>
    object (keys.filter fun key => !(value key).isUndefined) fun key => carry toJSON (value key)

theorem eq_undefined_of_isUndefined (h : v.isUndefined = true) : v = undefined := by
  cases v with
  | undefined => rfl
  | _ => cases h

/-- The literal has the fields it is written with. -/
theorem get_obj : (obj fields).get key = some ((fields.lookup key).getD undefined) := by
  have hmissing : key ∉ fields.map Prod.fst → fields.lookup key = none := by
    intro hkey
    rw [List.lookup_eq_none_iff]
    intro p hp
    have hne : key ≠ p.1 := fun heq => hkey (heq ▸ List.mem_map_of_mem hp)
    simpa using hne
  rw [obj, get]
  split
  · rfl
  · next hkey => rw [hmissing hkey]; rfl

@[simp] theorem get_obj_nil : (obj ([] : List (String × Value α))).get key = some undefined := rfl

@[simp] theorem get_obj_cons {field : String} :
    (obj ((field, v) :: fields)).get key = if key = field then some v else (obj fields).get key := by
  rw [get_obj, get_obj, List.lookup_cons]
  by_cases h : key = field
  · simp [h]
  · have hne : (key == field) = false := beq_eq_false_iff_ne.mpr h
    rw [hne, if_neg h]

/-- A property reads the same after the journey. -/
@[simp] theorem get_carry (toJSON : α → α) :
    (v.carry toJSON).get key = (v.get key).map (carry toJSON) := by
  cases v with
  | object keys value =>
    simp only [carry, get, List.mem_filter, Option.map_some, Option.some_inj]
    by_cases hkey : key ∈ keys
    · by_cases hundefined : (value key).isUndefined = true
      · rw [eq_undefined_of_isUndefined hundefined]
        simp [hkey, isUndefined, carry]
      · simp [hkey, hundefined]
    · simp [hkey, carry]
  | _ => rfl

end Value

end Js
