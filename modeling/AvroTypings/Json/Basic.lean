/-!
# JSON values

The values that a schema text denotes before it is known to be a schema. A number is either an
integer or a double, the latter kept as its bits so that equality of values is plain equality; an
object is a list of members in which the first with a given name counts.

## Main definitions

* `Json.Number`, `Json`: numbers and values.
* `Json.put`: setting a member of an object.
* `Json.nesting`: the number of arrays and objects around the most deeply nested value.

## Main results

* `Json.sizeOf_lt_of_lookup`: a member is smaller than the list of members it is found in, which
  is what recursion through a named member rests on.
* `eq_map_of_cons`, `eq_flatMap_of_cons`: what a function that goes over the parts of a tree does
  to a list of parts.
-/

namespace AvroTypings

/-! ### Lists of parts

A function on trees that hold lists of trees goes over such a list by a second function. What this
one does follows from what it does to one more element. -/

section Parts

variable {α β : Type}

/-- A function on lists that adds each element by the same step is a fold. -/
theorem eq_foldr_of_cons {f : List α → β} {step : α → β → β} {init : β} (hnil : f [] = init)
    (hcons : ∀ a l, f (a :: l) = step a (f l)) (l : List α) : f l = l.foldr step init := by
  induction l with
  | nil => exact hnil
  | cons a l ih => rw [hcons, ih, List.foldr_cons]

theorem eq_map_of_cons {f : List α → List β} {g : α → β} (hnil : f [] = [])
    (hcons : ∀ a l, f (a :: l) = g a :: f l) (l : List α) : f l = l.map g := by
  rw [List.map_eq_foldr]
  exact eq_foldr_of_cons hnil hcons l

theorem eq_flatMap_of_cons {f : List α → List β} {g : α → List β} (hnil : f [] = [])
    (hcons : ∀ a l, f (a :: l) = g a ++ f l) (l : List α) : f l = l.flatMap g :=
  (eq_foldr_of_cons hnil hcons l).trans
    (eq_foldr_of_cons List.flatMap_nil (fun _ _ => List.flatMap_cons) l).symm

end Parts

/-! ### Values -/

/-- A number: an integer, or the bits of a double. -/
inductive Json.Number where
  | integer (value : Int)
  | double (bits : UInt64)
  deriving DecidableEq, Inhabited

/-- A JSON value. -/
inductive Json where
  | null
  | bool (value : Bool)
  | number (value : Json.Number)
  | string (value : String)
  | array (items : List Json)
  | object (members : List (String × Json))
  deriving Inhabited

namespace Json

/-- Sets a member: the value replaces that of an earlier member with the same name, and goes to the
end if there is none. -/
def put (name : String) (value : Json) : List (String × Json) → List (String × Json)
  | [] => [(name, value)]
  | (other, old) :: members =>
    if other = name then (other, value) :: members else (other, old) :: put name value members

mutual

/-- The nesting of a value: no array or object nests at depth zero, and each one adds a level to
the deepest value it holds. -/
def nesting : Json → Nat
  | .array items => 1 + itemsNesting items
  | .object members => 1 + membersNesting members
  | _ => 0

/-- The largest nesting among the items of an array. -/
def itemsNesting : List Json → Nat
  | [] => 0
  | item :: items => max item.nesting (itemsNesting items)

/-- The largest nesting among the members of an object. -/
def membersNesting : List (String × Json) → Nat
  | [] => 0
  | (_, value) :: members => max value.nesting (membersNesting members)

end

theorem sizeOf_lt_of_lookup {name : String} {value : Json} {members : List (String × Json)}
    (h : members.lookup name = some value) : sizeOf value < sizeOf members := by
  induction members with
  | nil => simp at h
  | cons member members ih =>
    obtain ⟨other, old⟩ := member
    simp only [List.lookup_cons] at h
    split at h
    · cases h
      simp only [List.cons.sizeOf_spec, Prod.mk.sizeOf_spec]
      omega
    · have := ih h
      simp only [List.cons.sizeOf_spec]
      omega

end Json

end AvroTypings
