import ConfigTree.Proofs.Edit.Resolution

/-! The tree with one of its nodes replaced.  An edit at a path whose parent exists replaces the
parent by what the edit makes of it. -/

namespace ConfigTree.Node

/-- Puts `n` in the place of the node the segments lead to, which of a repeated key is the first
value. -/
def replace : Node → List String → Node → Node
  | _, [], n => n
  | root, s :: ss, n => match root.child? s with
    | some child => root.putChild s (child.replace ss n)
    | none => root

section

variable {root m n parent child : Node} {segments : List String} {s : String}

@[simp] theorem replace_nil (root n : Node) : root.replace [] n = n := rfl

theorem replace_cons (h : root.child? s = some child) (ss : List String) (n : Node) :
    root.replace (s :: ss) n = root.putChild s (child.replace ss n) := by
  rw [replace, h]

theorem update?_eq_replace {β : Type} {f : Node → Node × β} (h : root.follow? segments = some m) :
    root.update? f segments = some (root.replace segments (f m).1, (f m).2) := by
  induction segments generalizing root with
  | nil =>
    cases h
    rfl
  | cons s ss ih =>
    obtain ⟨child, hchild, h⟩ := Option.bind_eq_some_iff.1 h
    rw [update?, updateChild?, hchild, Option.bind_some, ih h, Option.map_some, replace_cons hchild]

theorem follow?_replace (h : root.follow? segments = some m) (n : Node) :
    (root.replace segments n).follow? segments = some n := by
  have hupdate := update?_eq_replace (f := fun _ => (n, ())) h
  obtain ⟨_, -, hfollow, -⟩ := follow?_of_update? hupdate
  exact hfollow

theorem replace_self (h : root.follow? segments = some m) : root.replace segments m = root := by
  have hupdate := update?_eq_replace (f := fun m => (m, ())) h
  rw [update?_eq_self h rfl] at hupdate
  exact (congrArg Prod.fst (Option.some.inj hupdate)).symm

theorem replace_replace (h : root.follow? segments = some m) (n n' : Node) :
    (root.replace segments n).replace segments n' = root.replace segments n' := by
  induction segments generalizing root with
  | nil => rfl
  | cons s ss ih =>
    obtain ⟨child, hchild, h⟩ := Option.bind_eq_some_iff.1 h
    rw [replace_cons hchild, replace_cons hchild, replace_cons (child?_putChild hchild _),
      putChild_putChild, ih h]

theorem replace_concat (h : root.follow? segments = some parent)
    (hchild : parent.child? s = some child) (n : Node) :
    root.replace (segments ++ [s]) n = root.replace segments (parent.putChild s n) := by
  induction segments generalizing root with
  | nil =>
    cases h
    exact replace_cons hchild [] n
  | cons u us ih =>
    obtain ⟨next, hnext, h⟩ := Option.bind_eq_some_iff.1 h
    rw [List.cons_append, replace_cons hnext, replace_cons hnext, ih h]

end

section

variable {d : Char} {path : String} {root parent child old : Node}

theorem editParent_eq_replace (h : root.parentOf? d path = some parent)
    (f : Node → Edited Node) :
    root.editParent d path f =
      ⟨root.replace (Path.parentSegments d path) (f parent).value, (f parent).failure⟩ := by
  rw [parentOf?_eq_follow?] at h
  rw [editParent, updateParentOf?_eq_update?, update?_eq_replace h]

/-- What stands at a path is replaced by replacing it in its parent. -/
theorem replace_segments (hroot : (Path.cut d path).isRoot = false)
    (h : root.parentOf? d path = some parent)
    (hchild : parent.child? (Path.cut d path).fragment = some child) (n : Node) :
    root.replace (Path.segments d path) n =
      root.replace (Path.parentSegments d path) (parent.putChild (Path.cut d path).fragment n) := by
  rw [parentOf?_eq_follow?] at h
  rw [Path.segments_eq_of_cut hroot, replace_concat h hchild]

theorem lookup?_replace (h : root.lookup? d path = some old) (n : Node) :
    (root.replace (Path.segments d path) n).lookup? d path = some n := follow?_replace h n

/-! ## Merging at a path that exists -/

theorem exists_parentOf?_of_lookup? (hroot : (Path.cut d path).isRoot = false)
    (h : root.lookup? d path = some old) :
    ∃ parent, root.parentOf? d path = some parent ∧
      parent.child? (Path.cut d path).fragment = some old := by
  rw [lookup?_eq_bind_child? hroot] at h
  exact Option.bind_eq_some_iff.1 h

section

variable {limit : Nat} {value n : Node}

theorem locate?_of_isRoot (hroot : (Path.cut d path).isRoot = true) :
    root.locate? d path = some ⟨Path.cut d path, root, none⟩ := by
  have hparent : root.parentOf? d path = some root := by rw [parentOf?, Path.cut_of_isRoot hroot]
  simp [locate?, hparent, hroot]

theorem locate?_of_parentOf? (hroot : (Path.cut d path).isRoot = false)
    (hparent : root.parentOf? d path = some parent) :
    root.locate? d path =
      some ⟨Path.cut d path, parent, parent.child? (Path.cut d path).fragment⟩ := by
  simp [locate?, hparent, hroot]

theorem locate?_of_child (hroot : (Path.cut d path).isRoot = false)
    (hparent : root.parentOf? d path = some parent)
    (hchild : parent.child? (Path.cut d path).fragment = some old) :
    root.locate? d path = some ⟨Path.cut d path, parent, some old⟩ := by
  rw [locate?_of_parentOf? hroot hparent, hchild]

theorem merge_of_child (hroot : (Path.cut d path).isRoot = false)
    (hparent : root.parentOf? d path = some parent)
    (hchild : parent.child? (Path.cut d path).fragment = some old)
    (hmerge : mergeChild limit ⟨Path.cut d path, parent, some old⟩ path value parent = .done n) :
    root.merge limit d path value = .done (root.replace (Path.parentSegments d path) n) := by
  unfold merge
  rw [locate?_of_child hroot hparent hchild]
  simp only [hroot, Bool.false_eq_true, if_false]
  refine (editParent_eq_replace hparent _).trans ?_
  simp only [Location.isOccupied, Option.isSome_some, if_true, hmerge, Edited.done]

/-- Where the value combines with what is there, that is replaced. -/
theorem merge_of_combine (h : root.lookup? d path = some old)
    (hcombine : combine limit old value = .merged (.done n)) :
    root.merge limit d path value = .done (root.replace (Path.segments d path) n) := by
  cases hroot : (Path.cut d path).isRoot with
  | true =>
    rw [lookup?_of_isRoot hroot] at h
    cases h
    unfold merge
    simp only [locate?_of_isRoot hroot, hroot, if_true, hcombine,
      Path.segments_eq_nil_of_isRoot hroot, replace_nil]
  | false =>
    obtain ⟨parent, hparent, hchild⟩ := exists_parentOf?_of_lookup? hroot h
    rw [replace_segments hroot hparent hchild]
    have hmerge : mergeChild limit ⟨Path.cut d path, parent, some old⟩ path value parent =
        .done (parent.putChild (Path.cut d path).fragment n) := by
      simp only [mergeChild, hchild, hcombine, Edited.map, Edited.done]
    exact merge_of_child hroot hparent hchild hmerge

end

end

end ConfigTree.Node
