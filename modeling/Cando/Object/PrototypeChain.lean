import Cando.Object.Object
import Cando.Lib.FirstAlong

/-!
# Prototype chains

What `cdo_object_get` computes on an arbitrary heap. The objects reached from one by following the
`__index` fields form a path, which may end at a field that is absent or no object, run in a circle or
lead from an object to itself. The look-up is the search for the first owner among the first
`CANDO_PROTO_DEPTH_MAX` objects of that path; its test for a self-loop only saves visits.
-/

namespace Cando

variable {ν : Type} {objs : List (CdoObject ν)} {w : Store ν} {p q depth : Nat} {key : Str} {v : CdoValue ν}

open Along

/-- The object that `p` refers to by its own `__index` field. -/
def protoLink (objs : List (CdoObject ν)) (p : Nat) : Option Nat :=
  match (objs[p]?).bind (·.rawget metaIndex) with
  | some (.object q) => some q
  | _ => none

/-- The value under `key` that the object at `p` itself owns. -/
def ownField (objs : List (CdoObject ν)) (key : Str) (p : Nat) : Option (CdoValue ν) :=
  (objs[p]?).bind (·.rawget key)

/-- The loop is the search along the links; at an object linked to itself the rest of the search would
find nothing. -/
lemma objectGet_eq_search : objectGet objs depth p key = search (protoLink objs) (ownField objs key) depth p := by
  induction depth generalizing p with
  | zero => rfl
  | succ depth ih =>
    rw [objectGet, search]
    cases here : objs[p]? with
    | none => simp [ownField, protoLink, here]
    | some o =>
      cases own : o.rawget key with
      | some v => simp [ownField, here, own]
      | none =>
        have no_field : ownField objs key p = none := by simp [ownField, here, own]
        rw [Option.bind_some, own, no_field]
        cases index : o.rawget metaIndex with
        | none => simp [protoLink, here, index]
        | some u =>
          cases u with
          | object q =>
            have link : protoLink objs p = some q := by simp [protoLink, here, index]
            by_cases self_loop : q = p
            · subst self_loop
              simp [link, search_loop no_field link]
            · simp [link, self_loop, ih]
          | null | bool | number | string => simp [protoLink, here, index]

/-- `cdo_object_get` finds the value of the first owner among the first `CANDO_PROTO_DEPTH_MAX` objects of
the `__index` chain, and finds none exactly when none of these owns the key. -/
theorem get_first_owner (w : Store ν) (p : Nat) (key : Str) :
    (∀ v, w.get p key = some v ↔
      ∃ k < protoDepthMax, FirstAt (protoLink w.objs) (ownField w.objs key) p k v) ∧
    (w.get p key = none ↔
      ∀ k < protoDepthMax, ∀ q, visit (protoLink w.objs) p k = some q → ownField w.objs key q = none) := by
  refine ⟨fun v => ?_, ?_⟩
  · rw [Store.get, objectGet_eq_search]
    exact search_eq_some
  · rw [Store.get, objectGet_eq_search]
    exact search_eq_none

/-- On a chain that ends within the bound the bound is not felt. -/
theorem get_none_of_ends (ends : visit (protoLink w.objs) p protoDepthMax = none) (absent : w.get p key = none) :
    ∀ n q, visit (protoLink w.objs) p n = some q → ownField w.objs key q = none := by
  intro n q reached
  rw [Store.get, objectGet_eq_search, search_eq_none] at absent
  refine absent n ?_ q reached
  by_contra far
  rw [visit_ended ends (Nat.le_of_not_lt far)] at reached
  cases reached

/-- Nor is it on a chain that closes within it. -/
theorem get_none_of_closes {j k : Nat} (lt : j < k) (le : k ≤ protoDepthMax)
    (closes : visit (protoLink w.objs) p k = visit (protoLink w.objs) p j) (absent : w.get p key = none) :
    ∀ n q, visit (protoLink w.objs) p n = some q → ownField w.objs key q = none := by
  intro n q reached
  rw [Store.get, objectGet_eq_search, search_eq_none] at absent
  obtain ⟨m, lt', e⟩ := visit_within lt closes n
  exact absent m (by omega) q (e ▸ reached)

end Cando
