import ConfigTree.Proofs.Edit.Commutation
import ConfigTree.Proofs.Edit.Overlay

/-! Merging at a path that exists, by the kinds of what is there and of what is merged.  Where the
two combine, the result takes the place of what was there; otherwise the parent keeps both if it is
an object, and the new one if it is an array. -/

namespace ConfigTree.Node

/-- Two nodes, the second merged into the first, and what becomes of them. -/
inductive Combines : Node → Node → Node → Prop
  | arrays (old items : List Node) : Combines (array old) (array items) (array (old ++ items))
  | objects {o incoming : Multimap Node} (ho : (object o).Everywhere KeysDistinct)
    (hincoming : (object incoming).Everywhere KeysDistinct) :
    Combines (object o) (object incoming) (object (o.overlay incoming))
  | item (old : List Node) {value : Node} (h : value.kind ≠ .array) :
    Combines (array old) value (array (old ++ [value]))
  | scalars {old value : Node} (hold : old.isCompound = false) (hvalue : value.isCompound = false) :
    Combines old value (array [old, value])

/-- Any other two kinds: an object meets what is no object, or a scalar what is compound. -/
def Mixed (old value : Node) : Prop :=
  old.kind ≠ .array ∧ ¬ (old.kind = .object ∧ value.kind = .object) ∧
    ¬ (old.isCompound = false ∧ value.isCompound = false)

instance (old value : Node) : Decidable (Mixed old value) :=
  inferInstanceAs (Decidable (_ ∧ _))

/-- Merges values into the node at `path`, one after the other. -/
def mergeEach (limit : Nat) (d : Char) (path : String) : List Node → Node → Edited Node
  | [], root => .done root
  | v :: vs, root => (root.merge limit d path v).andThen (mergeEach limit d path vs)

section

variable {limit : Nat} {d : Char} {path : String} {root old value n : Node}

theorem Combines.combine_eq (h : Combines old value n) (hlimit : value.depth ≤ limit) :
    combine limit old value = .merged (.done n) := by
  cases h with
  | arrays old items => rfl
  | objects ho hincoming =>
    rw [combine, mergeObjects_eq ho hincoming hlimit]
    rfl
  | item old h =>
    cases value with
    | array items => exact absurd rfl h
    | _ => rfl
  | scalars hold hvalue =>
    unfold combine
    split
    · cases hold
    · cases hold
    · cases hold
    · rw [hold, hvalue]
      rfl

theorem Mixed.combine_eq (h : Mixed old value) : combine limit old value = .leftOver value := by
  obtain ⟨harray, hobjects, hscalars⟩ := h
  unfold combine
  split
  · exact absurd rfl harray
  · exact absurd ⟨rfl, rfl⟩ hobjects
  · exact absurd rfl harray
  · refine if_pos ?_
    cases hold : old.isCompound with
    | true => rfl
    | false =>
      cases hvalue : value.isCompound with
      | true => rfl
      | false => exact absurd ⟨hold, hvalue⟩ hscalars

theorem Mixed.merge_at_root (h : Mixed root value) (hroot : (Path.cut d path).isRoot = true) :
    root.merge limit d path value = .failed root (.invalidRoot .merge value.kind) := by
  unfold merge
  simp only [locate?_of_isRoot hroot, hroot, if_true, h.combine_eq]

theorem Mixed.mergeChild_object (h : Mixed old value) {location : Location} {o : Multimap Node}
    (hchild : (object o).child? location.cut.fragment = some old) :
    mergeChild limit location path value (object o) =
      .done (object (o.modify location.cut.fragment (·.push value))) := by
  simp only [mergeChild, hchild, h.combine_eq, keepBoth]

theorem Mixed.mergeChild_array (h : Mixed old value) {location : Location} {items : List Node}
    (hchild : (array items).child? location.cut.fragment = some old)
    (ho : location.isOccupied = true) :
    mergeChild limit location path value (array items) =
      .done ((array items).putChild location.cut.fragment value) := by
  obtain ⟨i, hi, hitem⟩ := child?_array hchild
  have hlt : i < items.length := (List.getElem?_eq_some_iff.1 hitem).1
  simp [mergeChild, hchild, h.combine_eq, keepBoth, attach, hi, hlt, ho, putChild]

theorem mergeEach_into_array {items vs : List Node}
    (h : root.lookup? d path = some (array items)) (hvs : ∀ v ∈ vs, v.isCompound = false) :
    root.mergeEach limit d path vs =
      .done (root.replace (Path.segments d path) (array (items ++ vs))) := by
  induction vs generalizing root items with
  | nil => rw [List.append_nil, replace_self h, mergeEach]
  | cons v vs ih =>
    have hv : v.isCompound = false := hvs v List.mem_cons_self
    have hkind : v.kind ≠ .array := by
      intro hk
      rw [isCompound, hk] at hv
      cases hv
    have hmerge := merge_of_combine h ((Combines.item items hkind).combine_eq
      ((depth_of_scalar hv).trans_le (Nat.zero_le limit)))
    rw [mergeEach, hmerge, Edited.andThen_done,
      ih (lookup?_replace h _) fun v hv => hvs v (List.mem_cons_of_mem _ hv), replace_replace h,
      List.append_assoc, List.singleton_append]

/-- Scalars that are merged into a scalar one after the other make an array of it. -/
theorem mergeEach_into_scalar {vs : List Node} (h : root.lookup? d path = some old)
    (hold : old.isCompound = false) (hne : vs ≠ []) (hvs : ∀ v ∈ vs, v.isCompound = false) :
    root.mergeEach limit d path vs =
      .done (root.replace (Path.segments d path) (array (old :: vs))) := by
  cases vs with
  | nil => exact absurd rfl hne
  | cons v vs =>
    have hv : v.isCompound = false := hvs v List.mem_cons_self
    have hmerge := merge_of_combine h ((Combines.scalars hold hv).combine_eq
      ((depth_of_scalar hv).trans_le (Nat.zero_le limit)))
    rw [mergeEach, hmerge, Edited.andThen_done, mergeEach_into_array (lookup?_replace h _)
      fun v hv => hvs v (List.mem_cons_of_mem _ hv), replace_replace h]
    rfl

/-- There is no other case, as long as no key stands twice in an object. -/
theorem combines_or_mixed (hold : old.Everywhere KeysDistinct)
    (hvalue : value.Everywhere KeysDistinct) : (∃ n, Combines old value n) ∨ Mixed old value := by
  by_cases harray : old.kind = .array
  · obtain ⟨items, rfl⟩ := exists_array_of_kind harray
    by_cases hkind : value.kind = .array
    · obtain ⟨more, rfl⟩ := exists_array_of_kind hkind
      exact .inl ⟨_, .arrays items more⟩
    · exact .inl ⟨_, .item items hkind⟩
  · by_cases hobjects : old.kind = .object ∧ value.kind = .object
    · obtain ⟨o, rfl⟩ := exists_object_of_kind hobjects.1
      obtain ⟨incoming, rfl⟩ := exists_object_of_kind hobjects.2
      exact .inl ⟨_, .objects hold hvalue⟩
    · by_cases hscalars : old.isCompound = false ∧ value.isCompound = false
      · exact .inl ⟨_, .scalars hscalars.1 hscalars.2⟩
      · exact .inr ⟨harray, hobjects, hscalars⟩

end

/-- What a value becomes that is merged at a path where there is a node already.  Nothing else in
the tree changes. -/
theorem merge_follows_kinds (limit : Nat) (d : Char) (path : String) (root old : Node)
    (h : root.lookup? d path = some old) :
    (∀ value, value.depth ≤ limit →
      (old.Everywhere KeysDistinct → value.Everywhere KeysDistinct →
        (∃ n, Combines old value n) ∨ Mixed old value) ∧
      (root.Occupied d path → (root.merge limit d path value).failure = none) ∧
      (∀ n, Combines old value n →
        root.merge limit d path value = .done (root.replace (Path.segments d path) n)) ∧
      (Mixed old value → (Path.cut d path).isRoot = true →
        root.merge limit d path value = .failed root (.invalidRoot .merge value.kind)) ∧
      (Mixed old value → ∀ o, root.Occupied d path → root.parentOf? d path = some (object o) →
        let after := root.replace (Path.parentSegments d path)
          (object (o.modify (Path.cut d path).fragment (·.push value)))
        root.merge limit d path value = .done after ∧ after.lookup? d path = some old) ∧
      (Mixed old value → ∀ items, root.Occupied d path →
        root.parentOf? d path = some (array items) →
          root.merge limit d path value = .done (root.replace (Path.segments d path) value))) ∧
    ∀ vs : List Node, vs ≠ [] → old.isCompound = false → (∀ v ∈ vs, v.isCompound = false) →
      root.mergeEach limit d path vs =
        .done (root.replace (Path.segments d path) (array (old :: vs))) := by
  refine ⟨fun value hlimit => ⟨fun hold hvalue => combines_or_mixed hold hvalue, fun ho => ?_,
    fun n hn => ?_, fun hmixed hroot => ?_, fun hmixed o ho hparent => ?_,
    fun hmixed items ho hparent => ?_⟩,
    fun vs hne hold hvs => mergeEach_into_scalar h hold hne hvs⟩
  · exact congrArg Edited.failure (Write.run_of_occupied (w := .merge value) ho hlimit)
  · exact merge_of_combine h (hn.combine_eq hlimit)
  · cases Option.some.inj (h.symm.trans (lookup?_of_isRoot hroot root))
    exact hmixed.merge_at_root hroot
  · have hroot := (occupied_iff.1 ho).1
    obtain ⟨parent, hparent', hchild⟩ := exists_parentOf?_of_lookup? hroot h
    cases Option.some.inj (hparent.symm.trans hparent')
    have hmerge : mergeChild limit ⟨Path.cut d path, object o, some old⟩ path value (object o) =
        .done (object (o.modify (Path.cut d path).fragment (·.push value))) :=
      hmixed.mergeChild_object hchild
    refine ⟨merge_of_child hroot hparent hchild hmerge, ?_⟩
    rw [parentOf?_eq_follow?] at hparent
    rw [lookup?_eq_bind_child? hroot, parentOf?_eq_follow?, follow?_replace hparent,
      Option.bind_some]
    exact Multimap.get?_modify_push hchild value
  · have hroot := (occupied_iff.1 ho).1
    obtain ⟨parent, hparent', hchild⟩ := exists_parentOf?_of_lookup? hroot h
    cases Option.some.inj (hparent.symm.trans hparent')
    have hmerge : mergeChild limit ⟨Path.cut d path, array items, some old⟩ path value
        (array items) = .done ((array items).putChild (Path.cut d path).fragment value) :=
      hmixed.mergeChild_array hchild rfl
    rw [replace_segments hroot hparent hchild]
    exact merge_of_child hroot hparent hchild hmerge

/-- At the first value of a repeated key two scalars make an array, an object is kept beside, and
scalars one after the other are gathered; an object in an array gives way to a scalar. -/
theorem merge_follows_kinds_at_repeated_key :
    let root : Node := .object
      ⟨[("a", .repeated [.int 1, .int 7]), ("b", .single (.array [.object ∅]))]⟩
    root.merge 1 '.' ".a" (.bool true) = .done (.object
      ⟨[("a", .repeated [.array [.int 1, .bool true], .int 7]),
        ("b", .single (.array [.object ∅]))]⟩) ∧
    root.merge 1 '.' ".a" (.object ∅) = .done (.object
      ⟨[("a", .repeated [.int 1, .int 7, .object ∅]), ("b", .single (.array [.object ∅]))]⟩) ∧
    root.merge 1 '.' "b.+0" .null = .done (.object
      ⟨[("a", .repeated [.int 1, .int 7]), ("b", .single (.array [.null]))]⟩) ∧
    root.merge 1 '.' "." (.str "x") = .failed root (.invalidRoot .merge .string) ∧
    root.mergeEach 1 '.' ".a" [.null, .str "x"] = .done (.object
      ⟨[("a", .repeated [.array [.int 1, .null, .str "x"], .int 7]),
        ("b", .single (.array [.object ∅]))]⟩) := by
  intro root
  have hkey : Path.segments '.' ".a" = ["a"] := by decide +kernel
  have hitem : Path.segments '.' "b.+0" = ["b", "+0"] := by decide +kernel
  have hcut : Path.cut '.' ".a" = ⟨none, "a"⟩ := by decide +kernel
  have hold : root.lookup? '.' ".a" = some (.int 1) := by rw [lookup?, hkey]; rfl
  have hinner : root.lookup? '.' "b.+0" = some (.object ∅) := by
    rw [lookup?, hitem]
    rfl
  have hroot : root.parentOf? '.' ".a" = some root := by rw [parentOf?, hcut]
  have harray : root.parentOf? '.' "b.+0" = some (.array [.object ∅]) := by
    have hparents : Path.parentSegments '.' "b.+0" = ["b"] := by decide +kernel
    rw [parentOf?_eq_follow?, hparents]
    rfl
  have hoccupied : root.Occupied '.' ".a" := occupied_iff.2 ⟨by rw [hcut]; rfl, _, hold⟩
  have hoccupiedItem : root.Occupied '.' "b.+0" := occupied_iff.2 ⟨by decide +kernel, _, hinner⟩
  obtain ⟨hvalue, hscalars⟩ := merge_follows_kinds 1 '.' ".a" root (.int 1) hold
  obtain ⟨hitemValue, -⟩ := merge_follows_kinds 1 '.' "b.+0" root (.object ∅) hinner
  obtain ⟨hrootValue, -⟩ := merge_follows_kinds 1 '.' "." root root
    (lookup?_of_isRoot (by decide +kernel) root)
  refine ⟨?_, ?_, ?_, ?_, ?_⟩
  · obtain ⟨-, -, hcombines, -⟩ := hvalue (.bool true) (by decide)
    rw [hcombines _ (.scalars rfl rfl), hkey]
    rfl
  · obtain ⟨-, -, -, -, hobject, -⟩ := hvalue (.object ∅) (by decide)
    rw [(hobject (by decide) _ hoccupied hroot).1, hcut]
    rfl
  · obtain ⟨-, -, -, -, -, harrayItem⟩ := hitemValue .null (by decide)
    rw [harrayItem (by decide) _ hoccupiedItem harray, hitem]
    rfl
  · obtain ⟨-, -, -, hfails, -⟩ := hrootValue (.str "x") (by decide)
    exact hfails (by decide) (by decide +kernel)
  · rw [hscalars _ (by decide) rfl (by decide), hkey]
    rfl

end ConfigTree.Node
