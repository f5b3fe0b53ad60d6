import ConfigTree.Proofs.Multimap
import ConfigTree.Node

/-! The nodes directly inside a node, induction along them, and what holds of every node of a tree.
-/

namespace ConfigTree.Node

/-- The items of an array and the values of an object. -/
def inner : Node → List Node
  | array items => items
  | object o => o.values
  | _ => []

@[simp] theorem inner_array (items : List Node) : (array items).inner = items := rfl

@[simp] theorem inner_object (o : Multimap Node) : (object o).inner = o.values := rfl

theorem inner_eq_nil_of_scalar {n : Node} (h : n.isCompound = false) : n.inner = [] := by
  cases n with
  | array items => simp [isCompound, kind, Kind.isCompound] at h
  | object o => simp [isCompound, kind, Kind.isCompound] at h
  | _ => rfl

theorem exists_array_of_kind {n : Node} (h : n.kind = .array) : ∃ items, n = array items := by
  cases n with
  | array items => exact ⟨items, rfl⟩
  | _ => cases h

theorem exists_object_of_kind {n : Node} (h : n.kind = .object) : ∃ o, n = object o := by
  cases n with
  | object o => exact ⟨o, rfl⟩
  | _ => cases h

theorem kind_of_isCompound {n : Node} (h : n.isCompound = true) :
    n.kind = .array ∨ n.kind = .object := by
  cases n with
  | array items => exact .inl rfl
  | object o => exact .inr rfl
  | _ => cases h

theorem sizeOf_lt_of_mem_inner {n m : Node} (h : m ∈ n.inner) : sizeOf m < sizeOf n := by
  cases n with
  | array items =>
    have h₁ : sizeOf m < sizeOf items := List.sizeOf_lt_of_mem h
    simp only [array.sizeOf_spec]
    omega
  | object o =>
    obtain ⟨entries⟩ := o
    obtain ⟨⟨k, member⟩, he, hm⟩ := Multimap.mem_values_iff.1 h
    have h₁ : sizeOf (k, member) < sizeOf entries := List.sizeOf_lt_of_mem he
    have h₂ : sizeOf m < sizeOf member := by
      cases member with
      | single n =>
        obtain rfl : m = n := List.mem_singleton.1 hm
        simp only [Member.single.sizeOf_spec]
        omega
      | repeated ns =>
        have hlt : sizeOf m < sizeOf ns := List.sizeOf_lt_of_mem hm
        simp only [Member.repeated.sizeOf_spec]
        omega
    simp only [object.sizeOf_spec, Multimap.mk.sizeOf_spec, Prod.mk.sizeOf_spec] at h₁ ⊢
    omega
  | _ => cases h

@[elab_as_elim]
theorem inductInner {motive : Node → Prop} (step : ∀ n, (∀ m ∈ n.inner, motive m) → motive n)
    (n : Node) : motive n :=
  step n fun m _ => inductInner step m
termination_by sizeOf n
decreasing_by exact sizeOf_lt_of_mem_inner ‹_›

/-- `p` holds of the node and of every node below it, at any depth. -/
inductive Everywhere (p : Node → Prop) : Node → Prop
  | intro {n : Node} : p n → (∀ m ∈ n.inner, Everywhere p m) → Everywhere p n

section

variable {p q : Node → Prop} {n : Node}

theorem everywhere_iff : n.Everywhere p ↔ p n ∧ ∀ m ∈ n.inner, m.Everywhere p :=
  ⟨fun ⟨h, hb⟩ => ⟨h, hb⟩, fun ⟨h, hb⟩ => ⟨h, hb⟩⟩

theorem Everywhere.here (h : n.Everywhere p) : p n := (everywhere_iff.1 h).1

theorem Everywhere.inner (h : n.Everywhere p) {m : Node} (hm : m ∈ n.inner) : m.Everywhere p :=
  (everywhere_iff.1 h).2 m hm

theorem everywhere_of_scalar (hn : n.isCompound = false) : n.Everywhere p ↔ p n := by
  simp [everywhere_iff (n := n), inner_eq_nil_of_scalar hn]

theorem everywhere_array_iff {items : List Node} :
    (array items).Everywhere p ↔ p (array items) ∧ ∀ n ∈ items, n.Everywhere p := everywhere_iff

theorem everywhere_object_iff {o : Multimap Node} :
    (object o).Everywhere p ↔ p (object o) ∧ ∀ n ∈ o.values, n.Everywhere p := everywhere_iff

theorem Everywhere.imp (h : n.Everywhere p) (hpq : ∀ m, p m → q m) : n.Everywhere q := by
  induction h with
  | intro hp _ ih => exact .intro (hpq _ hp) ih

end

/-! ## Checking every node -/

mutual

/-- The check passes at every node. -/
def all (p : Node → Bool) : Node → Bool
  | array items => p (array items) && allItems p items
  | object ⟨entries⟩ => p (object ⟨entries⟩) && allEntries p entries
  | n => p n
termination_by structural n => n

def allItems (p : Node → Bool) : List Node → Bool
  | [] => true
  | n :: ns => all p n && allItems p ns
termination_by structural ns => ns

def allEntries (p : Node → Bool) : List (String × Member Node) → Bool
  | [] => true
  | (_, .single n) :: es => all p n && allEntries p es
  | (_, .repeated ns) :: es => allItems p ns && allEntries p es
termination_by structural es => es

end

theorem allItems_eq_all (p : Node → Bool) (ns : List Node) : allItems p ns = ns.all (all p) := by
  induction ns with
  | nil => rfl
  | cons n ns ih => rw [allItems, List.all_cons, ih]

theorem allEntries_eq_all (p : Node → Bool) (es : List (String × Member Node)) :
    allEntries p es = (es.flatMap (·.2.values)).all (all p) := by
  induction es with
  | nil => rfl
  | cons e es ih =>
    obtain ⟨k, n | ns⟩ := e
    · rw [allEntries, List.flatMap_cons, List.all_append, Member.values_single, List.all_cons,
        List.all_nil, Bool.and_true, ih]
    · rw [allEntries, List.flatMap_cons, List.all_append, Member.values_repeated, ih,
        allItems_eq_all]

theorem all_eq (p : Node → Bool) (n : Node) : n.all p = (p n && n.inner.all (all p)) := by
  cases n with
  | array items => rw [all, allItems_eq_all, inner_array]
  | object o => rw [all, allEntries_eq_all, inner_object, Multimap.values]
  | _ => exact (Bool.and_true _).symm

theorem all_iff {p : Node → Prop} [DecidablePred p] {n : Node} :
    n.all (fun m => p m) = true ↔ n.Everywhere p := by
  induction n using inductInner with
  | step n ih =>
    rw [all_eq, Bool.and_eq_true, decide_eq_true_eq, List.all_eq_true, everywhere_iff]
    exact and_congr_right' (forall₂_congr ih)

instance (p : Node → Prop) [DecidablePred p] : DecidablePred (Everywhere p) :=
  fun _ => decidable_of_iff _ all_iff

/-! ## Well-formed trees -/

/-- In an object no key stands twice, and a repeated key has two values or more. -/
def Sound : Node → Prop
  | object o => o.Sound
  | _ => True

theorem sound_of_scalar {n : Node} (h : n.isCompound = false) : n.Sound := by
  cases n with
  | object o => simp [isCompound, kind, Kind.isCompound] at h
  | _ => trivial

instance : DecidablePred Sound
  | object o => inferInstanceAs (Decidable o.Sound)
  | null | bool _ | int _ | float _ | str _ | time _ | userdata _ | array _ =>
    inferInstanceAs (Decidable True)

def WellFormed (n : Node) : Prop := n.Everywhere Sound

instance : DecidablePred WellFormed := inferInstanceAs (DecidablePred (Everywhere Sound))

theorem wellFormed_of_scalar {n : Node} (h : n.isCompound = false) : n.WellFormed :=
  (everywhere_of_scalar h).2 (sound_of_scalar h)

@[simp] theorem wellFormed_array_iff {items : List Node} :
    (array items).WellFormed ↔ ∀ n ∈ items, n.WellFormed :=
  everywhere_array_iff.trans (and_iff_right trivial)

@[simp] theorem wellFormed_object_iff {o : Multimap Node} :
    (object o).WellFormed ↔ o.Sound ∧ ∀ n ∈ o.values, n.WellFormed := everywhere_object_iff

theorem WellFormed.inner {n m : Node} (h : n.WellFormed) (hm : m ∈ n.inner) : m.WellFormed :=
  Everywhere.inner h hm

/-- Every key of the node holds a first value. -/
def KeysFilled : Node → Prop
  | object o => ∀ e ∈ o.entries, ∃ n, e.2.first? = some n
  | _ => True

theorem WellFormed.keysFilled {n : Node} (h : n.WellFormed) : n.Everywhere KeysFilled := by
  refine Everywhere.imp h fun m hm => ?_
  cases m with
  | object o => exact fun e he => (hm.members e he).exists_first?
  | _ => trivial

/-- No key of the node stands twice. -/
def KeysDistinct : Node → Prop
  | object o => o.KeysDistinct
  | _ => True

instance : DecidablePred KeysDistinct
  | object o => inferInstanceAs (Decidable o.KeysDistinct)
  | null | bool _ | int _ | float _ | str _ | time _ | userdata _ | array _ =>
    inferInstanceAs (Decidable True)

theorem WellFormed.keysDistinct {n : Node} (h : n.WellFormed) : n.Everywhere KeysDistinct := by
  refine Everywhere.imp h fun m hm => ?_
  cases m with
  | object o => exact hm.keysDistinct
  | _ => trivial

/-- No node of the tree is of kind `k`. -/
def Free (k : Kind) (n : Node) : Prop := n.Everywhere (·.kind ≠ k)

instance (k : Kind) : DecidablePred (Free k) :=
  inferInstanceAs (DecidablePred (Everywhere (·.kind ≠ k)))

/-- No key of the node is repeated. -/
def Unrepeated : Node → Prop
  | object o => ∀ e ∈ o.entries, e.2.isRepeated = false
  | _ => True

instance : DecidablePred Unrepeated
  | object _ => inferInstanceAs (Decidable (∀ e ∈ _, _))
  | null | bool _ | int _ | float _ | str _ | time _ | userdata _ | array _ =>
    inferInstanceAs (Decidable True)

/-- No object of the tree has a repeated key. -/
def NoRepeats (n : Node) : Prop := n.Everywhere Unrepeated

instance : DecidablePred NoRepeats := inferInstanceAs (DecidablePred (Everywhere Unrepeated))

end ConfigTree.Node
