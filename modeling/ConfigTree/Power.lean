/-! Powers of natural numbers and of integers are those of the core library, whatever else is in
scope. -/

namespace ConfigTree

@[default_instance 20000]
instance (priority := 2000) natPow : Pow Nat Nat := instPowNat

@[default_instance 15000]
instance (priority := 2000) intPow : Pow Int Nat := instPowNat

end ConfigTree
