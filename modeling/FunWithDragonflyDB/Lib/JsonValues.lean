/- FunWithDragonflyDB/Lib/JsonValues
   digest: JSON values over any kind of numbers, and what is found along a path into them. -/

import Mathlib

set_option autoImplicit false
set_option relaxedAutoImplicit false

namespace FunWithDragonflyDB.Lib.JsonValues

/-- A JSON value whose numbers are of type `N`. -/
inductive JsonValue (N : Type) where
  | null
  | bool (b : Bool)
  | num (n : N)
  | str (s : List Char)
  | arr (items : List (JsonValue N))
  | obj (members : List (List Char × JsonValue N))

variable {N M K : Type}

section Members

variable {α β : Type}

/-- The value of a name; of members with one name the last counts. -/
def member (members : List (List Char × α)) (name : List Char) : Option α :=
  members.reverse.lookup name

/-- The members without those that a later one of the same name replaces. -/
def dedupe : List (List Char × α) → List (List Char × α)
  | [] => []
  | m :: members => if m.1 ∈ members.map Prod.fst then dedupe members else m :: dedupe members

theorem lookup_cons_eq (m : List Char × α) (members : List (List Char × α)) (name : List Char) :
    (m :: members).lookup name = if name = m.1 then some m.2 else members.lookup name := by
  rw [List.lookup_cons]
  split_ifs with h
  · rw [beq_iff_eq.mpr h]
  · rw [beq_eq_false_iff_ne.mpr h]

theorem member_cons (m : List Char × α) (members : List (List Char × α)) (name : List Char) :
    member (m :: members) name =
      (member members name).or (if name = m.1 then some m.2 else none) := by
  unfold member
  rw [List.reverse_cons, List.lookup_append, lookup_cons_eq, List.lookup_nil]

theorem member_isSome {members : List (List Char × α)} {name : List Char} :
    (member members name).isSome ↔ name ∈ members.map Prod.fst := by
  induction members with
  | nil => simp [member]
  | cons m members ih =>
    rw [member_cons, Option.isSome_or, Bool.or_eq_true, ih, List.map_cons, List.mem_cons]
    by_cases h : name = m.1 <;> simp [h]

@[simp] theorem member_dedupe (members : List (List Char × α)) (name : List Char) :
    member (dedupe members) name = member members name := by
  induction members with
  | nil => rfl
  | cons m members ih =>
    unfold dedupe
    split_ifs with hlater
    · rw [ih, member_cons]
      by_cases h : name = m.1
      · rw [← h, ← member_isSome] at hlater
        rw [Option.or_of_isSome hlater]
      · rw [if_neg h, Option.or_none]
    · rw [member_cons, member_cons, ih]

theorem member_concat (members : List (List Char × α)) (name : List Char) (v : α)
    (name' : List Char) : member (members ++ [(name, v)]) name' =
      if name' = name then some v else member members name' := by
  unfold member
  rw [List.reverse_append, List.reverse_singleton, List.singleton_append, lookup_cons_eq]

end Members

section Map

mutual

/-- The same value with each number converted, each object a map from names to values. -/
def JsonValue.map (f : N → M) : JsonValue N → JsonValue M
  | .null => .null
  | .bool b => .bool b
  | .num n => .num (f n)
  | .str s => .str s
  | .arr items => .arr (mapItems f items)
  | .obj members => .obj (dedupe (mapMembers f members))

def mapItems (f : N → M) : List (JsonValue N) → List (JsonValue M)
  | [] => []
  | t :: items => t.map f :: mapItems f items

def mapMembers (f : N → M) : List (List Char × JsonValue N) → List (List Char × JsonValue M)
  | [] => []
  | (name, t) :: members => (name, t.map f) :: mapMembers f members

end

mutual

/-- Every number in the value passes. -/
def JsonValue.all (p : N → Bool) : JsonValue N → Bool
  | .num n => p n
  | .arr items => allItems p items
  | .obj members => allMembers p members
  | _ => true

def allItems (p : N → Bool) : List (JsonValue N) → Bool
  | [] => true
  | t :: items => t.all p && allItems p items

def allMembers (p : N → Bool) : List (List Char × JsonValue N) → Bool
  | [] => true
  | (_, t) :: members => t.all p && allMembers p members

end

theorem mapItems_eq (f : N → M) (items : List (JsonValue N)) :
    mapItems f items = items.map (JsonValue.map f) := by
  induction items with
  | nil => rfl
  | cons t items ih => rw [mapItems, ih, List.map_cons]

theorem member_mapMembers (f : N → M) (members : List (List Char × JsonValue N)) (name : List Char) :
    member (mapMembers f members) name = (member members name).map (JsonValue.map f) := by
  induction members with
  | nil => rfl
  | cons m members ih =>
    rw [mapMembers, member_cons, member_cons, ih]
    cases member members name with
    | some t => rfl
    | none => split_ifs <;> rfl

theorem mem_of_member {α : Type} {members : List (List Char × α)} {name : List Char} {v : α}
    (h : member members name = some v) : (name, v) ∈ members := by
  obtain ⟨before, after, hsplit, -⟩ := List.lookup_eq_some_iff.mp h
  rw [← List.mem_reverse, hsplit]
  exact List.mem_append_right before List.mem_cons_self

theorem all_of_mem_items {p : N → Bool} {items : List (JsonValue N)} (h : allItems p items = true)
    {t : JsonValue N} (ht : t ∈ items) : t.all p = true := by
  induction items with
  | nil => cases ht
  | cons u items ih =>
    rw [allItems, Bool.and_eq_true] at h
    rcases List.mem_cons.mp ht with rfl | ht
    · exact h.1
    · exact ih h.2 ht

theorem all_of_member {p : N → Bool} {members : List (List Char × JsonValue N)}
    (h : allMembers p members = true) {name : List Char} {t : JsonValue N}
    (ht : member members name = some t) : t.all p = true := by
  have hmem := mem_of_member ht
  clear ht
  induction members with
  | nil => cases hmem
  | cons m members ih =>
    rw [allMembers, Bool.and_eq_true] at h
    rcases List.mem_cons.mp hmem with rfl | hmem
    · exact h.1
    · exact ih h.2 hmem

end Map

section Paths

/-- One step down: to an array's item, or to an object's member. -/
inductive Step where
  | item (i : ℕ)
  | field (name : List Char)

/-- What a value is at its top: a scalar, an array of some length, or an object. -/
inductive Node (N : Type) where
  | null
  | bool (b : Bool)
  | num (n : N)
  | str (s : List Char)
  | arr (length : ℕ)
  | obj
  deriving DecidableEq

def Node.map (f : N → M) : Node N → Node M
  | .null => .null
  | .bool b => .bool b
  | .num n => .num (f n)
  | .str s => .str s
  | .arr length => .arr length
  | .obj => .obj

namespace JsonValue

def node : JsonValue N → Node N
  | .null => .null
  | .bool b => .bool b
  | .num n => .num n
  | .str s => .str s
  | .arr items => .arr items.length
  | .obj _ => .obj

def child : JsonValue N → Step → Option (JsonValue N)
  | .arr items, .item i => items[i]?
  | .obj members, .field name => member members name
  | _, _ => none

/-- What is found along a path.  Two values are the same JSON value if this agrees on all paths:
the order of members does not count, nor do members that later ones replace. -/
def at? : JsonValue N → List Step → Option (Node N)
  | t, [] => some t.node
  | t, step :: path => (t.child step).bind fun u => u.at? path

theorem node_map (f : N → M) (t : JsonValue N) : (t.map f).node = t.node.map f := by
  cases t with
  | arr items => rw [JsonValue.map, node, node, Node.map, mapItems_eq, List.length_map]
  | _ => rfl

theorem child_map (f : N → M) (t : JsonValue N) (step : Step) :
    (t.map f).child step = (t.child step).map (JsonValue.map f) := by
  cases t with
  | arr items =>
    cases step with
    | item i => rw [JsonValue.map, child, child, mapItems_eq, List.getElem?_map]
    | field name => rfl
  | obj members =>
    cases step with
    | item i => rfl
    | field name => rw [JsonValue.map, child, child, member_dedupe, member_mapMembers]
  | _ => rfl

theorem at?_map (f : N → M) (t : JsonValue N) (path : List Step) :
    (t.map f).at? path = (t.at? path).map (Node.map f) := by
  induction path generalizing t with
  | nil => rw [at?, at?, node_map, Option.map_some]
  | cons step path ih =>
    rw [at?, at?, child_map]
    cases t.child step with
    | none => rfl
    | some u => exact ih u

theorem all_at? {p : N → Bool} {t : JsonValue N} (h : t.all p = true) {path : List Step} {n : N}
    (hn : t.at? path = some (.num n)) : p n = true := by
  induction path generalizing t with
  | nil =>
    cases t with
    | num m =>
      obtain rfl := Node.num.inj (Option.some.inj hn)
      exact h
    | _ => cases hn
  | cons step path ih =>
    obtain ⟨u, hu, hn⟩ := Option.bind_eq_some_iff.mp hn
    apply ih _ hn
    cases t with
    | arr items =>
      cases step with
      | item i => exact all_of_mem_items h (List.mem_of_getElem? hu)
      | field name => cases hu
    | obj members =>
      cases step with
      | item i => cases hu
      | field name => exact all_of_member h hu
    | _ => cases hu

/-- A value converted there and back is the same exactly if every number in it is. -/
theorem map_map_eq_iff (f : N → M) (g : M → N) (t : JsonValue N) :
    (∀ path, ((t.map f).map g).at? path = t.at? path) ↔
      ∀ path n, t.at? path = some (.num n) → g (f n) = n := by
  constructor
  · intro h path n hn
    have hpath := h path
    rw [at?_map, at?_map, hn] at hpath
    exact Node.num.inj (Option.some.inj hpath)
  · intro h path
    rw [at?_map, at?_map]
    cases hn : t.at? path with
    | none => rfl
    | some v =>
      cases v with
      | num n => exact congrArg some (congrArg Node.num (h path n hn))
      | _ => rfl

end JsonValue

end Paths

end FunWithDragonflyDB.Lib.JsonValues
