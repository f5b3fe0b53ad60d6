import ConfigTree.Proofs.MessagePack.Reader
import ConfigTree.Query.Output

/-! Trees in MessagePack.  The bytes of a tree tell its canonical tree and where they end, so that
records written back to back tell the trees they were written for. -/

namespace ConfigTree

namespace Node

/-- The length of the node has a form, and so have the lengths of its keys and of their values. -/
def Fits : Node → Prop
  | object o => o.size < 2 ^ 32 ∧
    ∀ e ∈ o.entries, e.1.utf8ByteSize < 2 ^ 32 ∧ e.2.values.length < 2 ^ 32
  | n => n.size < 2 ^ 32

instance : DecidablePred Fits
  | object o => inferInstanceAs (Decidable (o.size < 2 ^ 32 ∧ ∀ e ∈ o.entries, _))
  | null | bool _ | int _ | float _ | str _ | time _ | userdata _ | array _ =>
    inferInstanceAs (Decidable (_ < _))

open MessagePack (Encodable)

theorem encodable_spread {m : Member Node} (hlength : m.values.length < 2 ^ 32)
    (h : ∀ n ∈ m.values, Encodable n.toValue) : Encodable (m.spread toValue .seq) := by
  cases m with
  | single a => exact h a List.mem_cons_self
  | repeated as =>
    exact MessagePack.encodable_seq ((List.length_map toValue).symm ▸ hlength)
      (List.forall_mem_map.2 h)

theorem encodable_toValue {n : Node} (h : n.Everywhere Fits) : Encodable n.toValue := by
  induction n using inductInner with
  | step n ih =>
    have hhere := h.here
    have hinner (m : Node) (hm : m ∈ n.inner) : Encodable m.toValue := ih m hm (h.inner hm)
    cases n with
    | array items =>
      rw [toValue, itemsToValues_eq_map]
      exact MessagePack.encodable_seq ((List.length_map toValue).symm ▸ hhere)
        (List.forall_mem_map.2 hinner)
    | object o =>
      obtain ⟨es⟩ := o
      obtain ⟨hsize, hentries⟩ := hhere
      rw [toValue, entriesToPairs_eq_map]
      refine MessagePack.encodable_map ((List.length_map _).symm ▸ hsize)
        (List.forall_mem_map.2 fun e he => ?_) (List.forall_mem_map.2 fun e he => ?_)
      · rw [Text.length_bytes]
        exact (hentries e he).1
      · exact encodable_spread (hentries e he).2 fun m hm =>
          hinner m (Multimap.mem_values_of_mem he hm)
    | str s =>
      refine MessagePack.encodable_of_leaf ?_ rfl rfl
      rw [toValue, MessagePack.head, MessagePack.Head.Fits, Text.length_bytes]
      exact hhere
    | int k => exact MessagePack.encodable_int k
    | float x | time x => exact MessagePack.encodable_of_leaf x.bits.toNat_lt rfl rfl
    | null | bool _ | userdata _ => exact MessagePack.encodable_of_leaf trivial rfl rfl

theorem render_append_inj {a b : Node} (ha : a.Everywhere Fits) (hb : b.Everywhere Fits)
    {x y : List UInt8} (h : a.render .messagePack ++ x = b.render .messagePack ++ y) :
    a.canon = b.canon ∧ x = y := by
  obtain ⟨hvalue, hrest⟩ :=
    MessagePack.encode_append_inj (encodable_toValue ha) (encodable_toValue hb) h
  exact ⟨canon_eq_of_toValue_eq hvalue, hrest⟩

theorem flatMap_render_inj {ns ms : List Node} (hns : ∀ n ∈ ns, n.Everywhere Fits)
    (hms : ∀ m ∈ ms, m.Everywhere Fits)
    (h : ns.flatMap (render · .messagePack) = ms.flatMap (render · .messagePack)) :
    ns.map canon = ms.map canon := by
  have hvalues : ns.map toValue = ms.map toValue := by
    refine MessagePack.flatMap_encode_inj ?_ ?_ ?_
    · simpa using fun n hn => encodable_toValue (hns n hn)
    · simpa using fun m hm => encodable_toValue (hms m hm)
    · rw [List.flatMap_map, List.flatMap_map]
      exact h
  simpa only [List.map_map, Function.comp_def, plain_toValue] using
    congrArg (List.map Value.plain) hvalues

end Node

namespace Query.Options

/-- The node of a record that is written as its MessagePack and nothing else, without a label before
it and a space or a newline about it. -/
def packed? (o : Options) : Record → Option Node
  | .node node path key =>
    if o.format = .messagePack ∧ o.noNewline = false ∧ o.labelText path key = [] then
      some (node.getD .null)
    else none
  | .line .. | .verbatim _ => none

theorem write_of_packed? {o : Options} {s : Output} {r : Record} {n : Node}
    (h : o.packed? r = some n) : (o.write s r).1 = n.render .messagePack := by
  cases r with
  | node node path key =>
    rw [packed?] at h
    split at h
    · next ho =>
      obtain ⟨hformat, hnewline, hlabel⟩ := ho
      cases h
      simp [write, frame, hformat, hnewline, hlabel, Format.isStructured]
    · cases h
  | line | verbatim => cases h

theorem writeAll_of_packed? {o : Options} {s : Output} {rs : List Record} {ns : List Node}
    (h : rs.map o.packed? = ns.map some) :
    (o.writeAll s rs).1 = ns.flatMap (Node.render · .messagePack) := by
  induction rs generalizing s ns with
  | nil =>
    obtain rfl := List.map_eq_nil_iff.1 h.symm
    rfl
  | cons r rs ih =>
    cases ns with
    | nil => cases h
    | cons n ns =>
      obtain ⟨hr, hrs⟩ := List.cons.inj h
      rw [writeAll, List.flatMap_cons, ← write_of_packed? (s := s) hr, ← ih hrs]

end Query.Options

namespace Node

open Query

/-- MessagePack tells the canonical tree and where it ends, also of records back to back, and takes
the shortest forms. -/
theorem messagePack_tells_canon :
    (∀ {a b : Node} {x y : List UInt8}, a.Everywhere Fits → b.Everywhere Fits →
      a.render .messagePack ++ x = b.render .messagePack ++ y → a.canon = b.canon ∧ x = y) ∧
    (∀ {o o' : Options} {s s' : Output} {rs ts : List Record} {ns ms : List Node},
      rs.map o.packed? = ns.map some → ts.map o'.packed? = ms.map some →
      (∀ n ∈ ns, n.Everywhere Fits) → (∀ m ∈ ms, m.Everywhere Fits) →
      (o.writeAll s rs).1 = (o'.writeAll s' ts).1 → ns.map canon = ms.map canon) ∧
    ∀ {n : Node}, n.Everywhere Fits →
      n.render .messagePack = MessagePack.encode n.toValue ∧ MessagePack.Shortest n.toValue := by
  refine ⟨fun ha hb h => render_append_inj ha hb h, ?_, fun hn => ⟨rfl, ?_⟩⟩
  · intro o o' s s' rs ts ns ms hrs hts hns hms h
    rw [Options.writeAll_of_packed? hrs, Options.writeAll_of_packed? hts] at h
    exact flatMap_render_inj hns hms h
  · exact MessagePack.shortest_of_encodable (encodable_toValue hn)

theorem messagePack_tells_canon_of_repeated_key :
    let x : Binary64 := ⟨0x3FF8000000000000⟩
    let a : Node := object ⟨[("k", .repeated [time x, userdata "u"])]⟩
    let b : Node := object ⟨[("k", .single (array [float x, null]))]⟩
    let o : Options := { (default : Options) with format := .messagePack }
    let rs : List Record := [.node (some a) "" "", .node none "" ".k"]
    let ts : List Record := [.node (some b) ".k" "", .node (some (userdata "v")) "" ""]
    a.render .messagePack ++ [0x20] = b.render .messagePack ++ [0x20] ∧
    a ≠ b ∧ a.canon = b.canon ∧
    (o.writeAll .start rs).1 = (o.writeAll .start ts).1 ∧
    [a, null].map canon = [b, userdata "v"].map canon ∧
    MessagePack.Shortest a.toValue := by
  intro x a b o rs ts
  obtain ⟨hone, hall, hform⟩ := messagePack_tells_canon
  have ha : a.Everywhere Fits := by decide +kernel
  have hb : b.Everywhere Fits := by decide +kernel
  have hbytes : a.render .messagePack ++ [0x20] = b.render .messagePack ++ [0x20] := by
    decide +kernel
  have hrecords : (o.writeAll .start rs).1 = (o.writeAll .start ts).1 := by decide +kernel
  have hns : ∀ n ∈ [a, null], n.Everywhere Fits := by decide +kernel
  have hms : ∀ m ∈ [b, userdata "v"], m.Everywhere Fits := by decide +kernel
  exact ⟨hbytes, by simp [a, b], (hone ha hb hbytes).1, hrecords, hall rfl rfl hns hms hrecords,
    (hform ha).2⟩

end Node

end ConfigTree
