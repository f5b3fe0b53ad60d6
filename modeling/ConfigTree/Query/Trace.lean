import ConfigTree.Error
import ConfigTree.Node

/-! Traces: the records a query puts out, in order, and how it ends.  Records put out before an
error stay. -/

namespace ConfigTree.Query

inductive Record
  /-- A node, or the lack of one, labelled by a display path and a key. -/
  | node (node : Option Node) (path key : String)
  /-- Text in the place of a node. -/
  | line (path key text : String)
  /-- Text outside the records. -/
  | verbatim (text : String)

structure Trace (α : Type) where
  records : List Record
  result : Except Error α

namespace Trace

variable {α β : Type}

def put (r : Record) : Trace Unit := ⟨[r], .ok ()⟩

def halt (e : Error) : Trace α := ⟨[], .error e⟩

protected def bind (t : Trace α) (f : α → Trace β) : Trace β :=
  match t.result with
  | .ok a => ⟨t.records ++ (f a).records, (f a).result⟩
  | .error e => ⟨t.records, .error e⟩

instance : Monad Trace where
  pure a := ⟨[], .ok a⟩
  bind := Trace.bind

@[simp] theorem records_pure (a : α) : (pure a : Trace α).records = [] := rfl

@[simp] theorem result_pure (a : α) : (pure a : Trace α).result = .ok a := rfl

@[simp] theorem pure_bind (a : α) (f : α → Trace β) : (pure a >>= f) = f a := rfl

@[simp] theorem halt_bind (e : Error) (f : α → Trace β) : (halt e >>= f) = halt e := rfl

instance : LawfulMonad Trace := LawfulMonad.mk' Trace
  (fun t => by
    obtain ⟨rs, _ | a⟩ := t <;> simp [Functor.map, Trace.bind])
  (fun _ _ => rfl)
  (fun t f g => by
    obtain ⟨rs, _ | a⟩ := t
    · rfl
    · simp only [bind, Trace.bind]
      split <;> simp_all)

end Trace

end ConfigTree.Query
