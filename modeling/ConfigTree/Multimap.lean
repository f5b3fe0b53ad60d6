/-! An insertion-ordered map from keys to one or more values.  A key that was pushed more than once
keeps every value, in order; `get?` sees the first.  The operations are described by the list of
entries: `insert` replaces a whole entry in place, `push` extends one, `erase` closes the gap. -/

universe u

namespace ConfigTree

/-- What a key holds: one value, or the values of a repeated key. -/
inductive Member (α : Type u)
  | single (a : α)
  /-- Always two or more values, in the order they were seen. -/
  | repeated (as : List α)
  deriving DecidableEq, Repr

namespace Member

variable {α : Type u}

def values : Member α → List α
  | single a => [a]
  | repeated as => as

/-- The value a lookup of the key sees. -/
def first? (m : Member α) : Option α := m.values.head?

/-- That value, which every key in use has. -/
def first [Inhabited α] (m : Member α) : α := m.first?.getD default

def rest (m : Member α) : List α := m.values.tail

/-- A second value makes the key a repeated one. -/
def push (m : Member α) (a : α) : Member α := .repeated (m.values ++ [a])

def setFirst (m : Member α) (a : α) : Member α :=
  match m with
  | single _ => single a
  | repeated _ => repeated (a :: m.rest)

def isRepeated : Member α → Bool
  | single _ => false
  | repeated _ => true

@[simp] theorem values_single (a : α) : (single a).values = [a] := rfl

@[simp] theorem values_repeated (as : List α) : (repeated as).values = as := rfl

@[simp] theorem values_push (m : Member α) (a : α) : (m.push a).values = m.values ++ [a] := rfl

@[simp] theorem values_setFirst (m : Member α) (a : α) : (m.setFirst a).values = a :: m.rest := by
  cases m <;> rfl

end Member

structure Multimap (α : Type u) where
  entries : List (String × Member α)
  deriving DecidableEq, Repr

namespace Multimap

variable {α : Type u}

def empty : Multimap α := ⟨[]⟩

instance : EmptyCollection (Multimap α) := ⟨empty⟩

instance : Inhabited (Multimap α) := ⟨empty⟩

def keys (o : Multimap α) : List String := o.entries.map Prod.fst

/-- Number of distinct keys. -/
def size (o : Multimap α) : Nat := o.entries.length

def isEmpty (o : Multimap α) : Bool := o.entries.isEmpty

def member? (o : Multimap α) (key : String) : Option (Member α) := o.entries.lookup key

/-- The first value under `key`. -/
def get? (o : Multimap α) (key : String) : Option α := (o.member? key).bind Member.first?

def contains (o : Multimap α) (key : String) : Bool := (o.member? key).isSome

def indexOf? (o : Multimap α) (key : String) : Option Nat := o.keys.findIdx? (· == key)

/-- Changes the member under `key`, or appends `fresh` when there is none. -/
def upsert (change : Member α → Member α) (fresh : Member α) (key : String) :
    List (String × Member α) → List (String × Member α)
  | [] => [(key, fresh)]
  | (k, m) :: es =>
    if k = key then (k, change m) :: es else (k, m) :: upsert change fresh key es

def insert (o : Multimap α) (key : String) (a : α) : Multimap α :=
  ⟨upsert (fun _ => .single a) (.single a) key o.entries⟩

def push (o : Multimap α) (key : String) (a : α) : Multimap α :=
  ⟨upsert (·.push a) (.single a) key o.entries⟩

def erase (o : Multimap α) (key : String) : Multimap α :=
  ⟨o.entries.eraseP (·.1 == key)⟩

/-- Changes the member under `key`, if there is one. -/
def modify (o : Multimap α) (key : String) (change : Member α → Member α) : Multimap α :=
  ⟨adjust o.entries⟩
where
  adjust : List (String × Member α) → List (String × Member α)
    | [] => []
    | (k, m) :: es => if k = key then (k, change m) :: es else (k, m) :: adjust es

/-- Replaces the first value under `key`; further values stay. -/
def setFirst (o : Multimap α) (key : String) (a : α) : Multimap α :=
  o.modify key (·.setFirst a)

/-- Every pair adds a value to its key. -/
def ofPairs (pairs : List (String × α)) : Multimap α :=
  pairs.foldl (fun o p => o.push p.1 p.2) ∅

/-- Of pairs with one key the last wins, at the place of the first. -/
def ofLatest (pairs : List (String × α)) : Multimap α :=
  pairs.foldl (fun o p => o.insert p.1 p.2) ∅

/-- Every value with its key. -/
def toPairs (o : Multimap α) : List (String × α) :=
  o.entries.flatMap fun e => e.2.values.map (e.1, ·)

/-- No key stands in two entries. -/
def KeysDistinct (o : Multimap α) : Prop := o.keys.Nodup

@[simp] theorem keys_empty : (∅ : Multimap α).keys = [] := rfl

@[simp] theorem toPairs_empty : (∅ : Multimap α).toPairs = [] := rfl

theorem map_fst_upsert (change : Member α → Member α) (fresh : Member α) (key : String)
    (es : List (String × Member α)) :
    (upsert change fresh key es).map Prod.fst =
      if key ∈ es.map Prod.fst then es.map Prod.fst else es.map Prod.fst ++ [key] := by
  induction es with
  | nil => simp [upsert]
  | cons e es ih =>
    by_cases h : e.1 = key
    · simp [upsert, h]
    · have h' : ¬ key = e.1 := fun he => h he.symm
      by_cases hm : key ∈ es.map Prod.fst <;> simp_all [upsert]

@[simp] theorem keys_insert (o : Multimap α) (key : String) (a : α) :
    (o.insert key a).keys = if key ∈ o.keys then o.keys else o.keys ++ [key] :=
  map_fst_upsert ..

@[simp] theorem keys_push (o : Multimap α) (key : String) (a : α) :
    (o.push key a).keys = if key ∈ o.keys then o.keys else o.keys ++ [key] :=
  map_fst_upsert ..

end Multimap

end ConfigTree
