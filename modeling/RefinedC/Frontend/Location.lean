import Mathlib.Logic.Function.Basic
import RefinedC.Library.AssocList

/-!
Source locations.

Source: `frontend/location.ml`, and `coq_locs` and `rc_locs` of `frontend/coq_ast.ml` and
`frontend/rc_annot.ml`.

Owns: pools of locations, the locations that are drawn from them, and that a location
keeps its data.
-/

namespace RefinedC.Frontend

open Library

structure LocData where
  key : Int
  file : String
  line1 : Int
  col1 : Int
  line2 : Int
  col2 : Int
deriving DecidableEq

/-! ## Pools -/

/-- The newest entry of the table comes first. -/
structure Pool where
  htbl : List (Int × LocData)
  keyCounter : Int
  drawn : ∀ key ∈ htbl.map Prod.fst, key ≤ keyCounter

namespace Pool

def make : Pool := ⟨[], -1, by simp⟩

/-- Entry for a new key. -/
def entry (c : Int → Option LocData) (key : Int) : List (Int × LocData) :=
  (c key).toList.map fun data => (key, data)

def fresh (c : Int → Option LocData) (pool : Pool) : Int × Pool :=
  let key := pool.keyCounter + 1
  (key,
    { htbl := entry c key ++ pool.htbl
      keyCounter := key
      drawn := by
        intro k member
        rw [List.map_append, List.mem_append] at member
        rcases member with new | old
        · simp only [entry, List.map_map, List.mem_map] at new
          obtain ⟨_, -, rfl⟩ := new
          exact Int.le_refl _
        · have := pool.drawn k old
          omega })

def get (pool : Pool) (key : Int) : Option LocData := pool.htbl.lookup key

variable {c : Int → Option LocData} {pool : Pool}

private theorem get_undrawn {key : Int} (undrawn : pool.keyCounter < key) :
    pool.get key = none := by
  rw [get, lookup_eq_none_iff]
  intro member
  have := pool.drawn key member
  omega

private theorem get_fresh_self : (pool.fresh c).2.get (pool.fresh c).1 = c (pool.fresh c).1 := by
  have old : pool.htbl.lookup (pool.keyCounter + 1) = none := get_undrawn (Int.lt_succ _)
  change (entry c (pool.keyCounter + 1) ++ pool.htbl).lookup (pool.keyCounter + 1) =
    c (pool.keyCounter + 1)
  rw [List.lookup_append, old, entry]
  cases c (pool.keyCounter + 1) with
  | none => rfl
  | some data => simp

private theorem get_fresh_other {key : Int} (drawn : key ≤ pool.keyCounter) :
    (pool.fresh c).2.get key = pool.get key := by
  have new : (entry c (pool.keyCounter + 1)).lookup key = none := by
    rw [lookup_eq_none_iff]
    intro member
    simp only [entry, List.map_map, List.mem_map] at member
    obtain ⟨_, -, same⟩ := member
    have : pool.keyCounter + 1 = key := same
    omega
  change (entry c (pool.keyCounter + 1) ++ pool.htbl).lookup key = pool.get key
  rw [List.lookup_append, new]
  rfl

end Pool

/-! ## Locations -/

/-- The pools of the frontend. -/
inductive PoolId where
  | coqLocs
  | rcLocs
deriving DecidableEq

abbrev Pools := PoolId → Pool

structure Location where
  key : Int
  pool : PoolId
deriving DecidableEq

namespace Location

def fresh (c : Int → Option LocData) (pool : PoolId) : StateM Pools Location := fun pools =>
  let drawn := (pools pool).fresh c
  (⟨drawn.1, pool⟩, Function.update pools pool drawn.2)

def none : PoolId → StateM Pools Location := fresh fun _ => .none

def make (file : String) (l1 c1 l2 c2 : Int) : PoolId → StateM Pools Location :=
  fresh fun key => some ⟨key, file, l1 + 1, c1, l2 + 1, c2⟩

def get (pools : Pools) (loc : Location) : Option LocData := (pools loc.pool).get loc.key

/-- The location has been drawn from its pool. -/
def Drawn (pools : Pools) (loc : Location) : Prop := loc.key ≤ (pools loc.pool).keyCounter

/-- The locations that have been drawn keep their data. -/
def Kept (pools pools' : Pools) : Prop :=
  ∀ loc, Drawn pools loc → get pools' loc = get pools loc

variable {c : Int → Option LocData} {pool : PoolId} {pools : Pools}

private theorem get_fresh_self :
    get (fresh c pool pools).2 (fresh c pool pools).1 = c (fresh c pool pools).1.key := by
  change (Function.update pools pool ((pools pool).fresh c).2 pool).get _ = _
  rw [Function.update_self]
  exact Pool.get_fresh_self

theorem get_none : get (none pool pools).2 (none pool pools).1 = .none := get_fresh_self

theorem get_make {file : String} {l1 c1 l2 c2 : Int} :
    get (make file l1 c1 l2 c2 pool pools).2 (make file l1 c1 l2 c2 pool pools).1 =
      some ⟨(make file l1 c1 l2 c2 pool pools).1.key, file, l1 + 1, c1, l2 + 1, c2⟩ :=
  get_fresh_self

theorem kept_fresh : Kept pools (fresh c pool pools).2 := by
  intro loc drawn
  change (Function.update pools pool ((pools pool).fresh c).2 loc.pool).get loc.key = _
  by_cases same : loc.pool = pool
  · subst same
    rw [Function.update_self]
    exact Pool.get_fresh_other drawn
  · rw [Function.update_of_ne same]
    rfl

end Location

structure Location.Located (α : Type) where
  elt : α
  loc : Location

end RefinedC.Frontend
