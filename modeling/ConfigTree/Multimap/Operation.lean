import ConfigTree.Multimap

/-! Changes of a multimap, one at a time.  Where all values of a key give way to a new one or to none,
they are handed back. -/

universe u

namespace ConfigTree.Multimap

inductive Operation (α : Type u)
  /-- A value in the place of all values of the key, or under a new key. -/
  | insert (key : String) (a : α)
  /-- A value behind those of the key, or under a new key. -/
  | push (key : String) (a : α)
  /-- A value behind those of a key that is there. -/
  | extend (key : String) (a : α)
  /-- A value in the place of the first of a key that is there. -/
  | setFirst (key : String) (a : α)
  | erase (key : String)
  /-- A new multimap, in which the last value of a key wins. -/
  | collect (pairs : List (String × α))

namespace Operation

variable {α : Type u}

/-- The multimap after the operation. -/
def apply (o : Multimap α) : Operation α → Multimap α
  | insert key a => o.insert key a
  | push key a => o.push key a
  | extend key a => o.modify key (·.push a)
  | setFirst key a => o.setFirst key a
  | erase key => o.erase key
  | collect pairs => ofLatest pairs

/-- What the operation hands back of the multimap before it. -/
def handedBack? (o : Multimap α) : Operation α → Option (Member α)
  | insert key _ | erase key => o.member? key
  | push .. | extend .. | setFirst .. | collect _ => none

def run (o : Multimap α) (operations : List (Operation α)) : Multimap α := operations.foldl apply o

end Operation

end ConfigTree.Multimap
