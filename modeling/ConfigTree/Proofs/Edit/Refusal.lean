import ConfigTree.Proofs.Edit.Placement
import ConfigTree.Proofs.Edit.Removal

/-! What the failure of an edit tells of its path.  Setting and merging say whether the way to the
parent breaks off or the parent is a scalar.  A removal says that there is no such child before it
looks at what the parent is, so it does not tell a scalar from an object or array without the
child. -/

namespace ConfigTree.Node

/-- Some step of the way does not exist. -/
inductive Breaks : List String → Node → Prop
  | here {s : String} {ss : List String} {n : Node} (h : n.child? s = none) : Breaks (s :: ss) n
  | beyond {s : String} {ss : List String} {n m : Node} (h : n.child? s = some m)
    (hm : m.Breaks ss) : Breaks (s :: ss) n

theorem follow?_eq_none_iff {ss : List String} {n : Node} : n.follow? ss = none ↔ n.Breaks ss := by
  induction ss generalizing n with
  | nil => exact ⟨nofun, nofun⟩
  | cons s ss ih =>
    rw [follow?]
    cases hs : n.child? s with
    | none => exact iff_of_true rfl (.here hs)
    | some m =>
      rw [Option.bind_some, ih]
      refine ⟨.beyond hs, fun h => ?_⟩
      cases h with
      | here hnone => cases hnone.symm.trans hs
      | beyond hm h =>
        cases hm.symm.trans hs
        exact h

section

variable {d : Char} {path : String} {root parent value : Node} {limit : Nat} {failure : Option Error}

theorem parentOf?_eq_none_iff :
    root.parentOf? d path = none ↔ root.Breaks (Path.parentSegments d path) := by
  rw [parentOf?_eq_follow?, follow?_eq_none_iff]

/-- The failure says that there is no parent just where the way there breaks off. -/
structure TellsOfWay (d : Char) (path : String) (root : Node) (failure : Option Error) : Prop where
  missing : ∀ q, failure = some (.parentNotFound q) ↔
    q = path ∧ root.Breaks (Path.parentSegments d path)

/-- It says that the parent cannot have children just where that is a scalar. -/
structure TellsOfParent (d : Char) (path : String) (root : Node) (failure : Option Error) : Prop
    extends TellsOfWay d path root failure where
  scalar : ∀ q kind, failure = some (.invalidParent q kind) ↔ q = path ∧
    ∃ parent, root.parentOf? d path = some parent ∧ parent.isCompound = false ∧ kind = parent.kind

/-- It says that there is no such child just where the parent is an object or array without it. -/
structure TellsOfChild (d : Char) (path : String) (root : Node) (failure : Option Error) : Prop
    extends TellsOfParent d path root failure where
  vacant : ∀ q, failure = some (.keyNotFound q) ↔ q = path ∧
    ∃ parent, root.parentOf? d path = some parent ∧ parent.isCompound = true ∧
      parent.child? (Path.cut d path).fragment = none

/-- It says that there is no such child whatever the parent is. -/
structure TellsOfLack (d : Char) (path : String) (root : Node) (failure : Option Error) : Prop
    extends TellsOfWay d path root failure where
  vacant : ∀ q, failure = some (.keyNotFound q) ↔ q = path ∧
    ∃ parent, root.parentOf? d path = some parent ∧
      parent.child? (Path.cut d path).fragment = none
  indifferent : ∀ q kind, failure ≠ some (.invalidParent q kind)

theorem tellsOfParent_of_none (h : root.parentOf? d path = none) :
    TellsOfParent d path root (some (.parentNotFound path)) where
  missing q := by simp [parentOf?_eq_none_iff.1 h, eq_comm]
  scalar q kind := by simp [h]

theorem tellsOfParent_of_scalar (h : root.parentOf? d path = some parent)
    (hc : parent.isCompound = false) :
    TellsOfParent d path root (some (.invalidParent path parent.kind)) where
  missing q := by simp [← parentOf?_eq_none_iff, h]
  scalar q kind := by
    refine ⟨fun hfailure => ?_, ?_⟩
    · cases hfailure
      exact ⟨rfl, parent, h, hc, rfl⟩
    · rintro ⟨rfl, _, hparent, -, rfl⟩
      cases h.symm.trans hparent
      rfl

theorem tellsOfParent_of_compound (h : root.parentOf? d path = some parent)
    (hc : parent.isCompound = true) (hmissing : ∀ q, failure ≠ some (.parentNotFound q))
    (hscalar : ∀ q kind, failure ≠ some (.invalidParent q kind)) :
    TellsOfParent d path root failure where
  missing q := by simp [← parentOf?_eq_none_iff, h, hmissing]
  scalar q kind := by simp [h, hc, hscalar]

/-! ## Setting and merging -/

theorem failure_mergeChild_of_child {location : Location} {child : Node} {e : Error}
    (h : (mergeChild limit location path value parent).failure = some e)
    (hchild : parent.child? location.cut.fragment = some child) : e = .tooDeep limit := by
  have hc : parent.isCompound = true := isCompound_of_child? hchild
  simp only [mergeChild, hchild] at h
  split at h
  · next hcombine => exact (failure_combine hcombine h).1
  · unfold keepBoth at h
    split at h
    · cases h
    · cases (failure_attach hc).symm.trans h

theorem merge_of_no_parent (h : root.parentOf? d path = none) :
    root.merge limit d path value = .failed root (.parentNotFound path) := by
  unfold merge
  simp only [locate?_of_no_parent h]

theorem merge_of_no_child (hroot : (Path.cut d path).isRoot = false)
    (hparent : root.parentOf? d path = some parent)
    (hchild : parent.child? (Path.cut d path).fragment = none) :
    root.merge limit d path value =
      root.editParent d path (attach ⟨Path.cut d path, parent, none⟩ path value) := by
  unfold merge
  rw [locate?_of_parentOf? hroot hparent, hchild]
  simp only [hroot, Location.isOccupied, Option.isSome_none, Bool.false_eq_true, if_false]

theorem failure_merge_of_child {child : Node} {e : Error} (hroot : (Path.cut d path).isRoot = false)
    (hparent : root.parentOf? d path = some parent)
    (hchild : parent.child? (Path.cut d path).fragment = some child)
    (h : (root.merge limit d path value).failure = some e) : e = .tooDeep limit := by
  unfold merge at h
  simp only [locate?_of_child hroot hparent hchild, hroot, Location.isOccupied, Option.isSome_some,
    Bool.false_eq_true, if_false, if_true] at h
  rw [(editParent_of_some hparent).1] at h
  exact failure_mergeChild_of_child h hchild

theorem tellsOfParent_attach {location : Location} (hparent : root.parentOf? d path = some parent) :
    TellsOfParent d path root (attach location path value parent).failure := by
  cases hc : parent.isCompound with
  | false =>
    rw [attach_of_scalar hc]
    exact tellsOfParent_of_scalar hparent hc
  | true =>
    rw [failure_attach hc]
    exact tellsOfParent_of_compound hparent hc nofun nofun

theorem tellsOfParent_set (hroot : (Path.cut d path).isRoot = false) (root value : Node) :
    TellsOfParent d path root (root.set d path value).failure := by
  cases hparent : root.parentOf? d path with
  | none =>
    rw [set_of_no_parent hparent]
    exact tellsOfParent_of_none hparent
  | some parent =>
    rw [set_of_parentOf? hroot hparent, (editParent_of_some hparent).1]
    exact tellsOfParent_attach hparent

/-- Where a merge meets a child, it fails for nothing but depth. -/
theorem tellsOfParent_merge (hroot : (Path.cut d path).isRoot = false) (root value : Node)
    (limit : Nat) : TellsOfParent d path root (root.merge limit d path value).failure := by
  cases hparent : root.parentOf? d path with
  | none =>
    rw [merge_of_no_parent hparent]
    exact tellsOfParent_of_none hparent
  | some parent =>
    cases hchild : parent.child? (Path.cut d path).fragment with
    | none =>
      rw [merge_of_no_child hroot hparent hchild, (editParent_of_some hparent).1]
      exact tellsOfParent_attach hparent
    | some child =>
      have hdeep {e : Error} (h : (root.merge limit d path value).failure = some e) :
          e = .tooDeep limit := failure_merge_of_child hroot hparent hchild h
      refine tellsOfParent_of_compound hparent (isCompound_of_child? hchild) (fun q h => ?_)
        fun q kind h => ?_
      · cases hdeep h
      · cases hdeep h

/-! ## Removing -/

theorem remove_of_no_parent (h : root.parentOf? d path = none) :
    root.remove d path = .failed root (.parentNotFound path) := by
  unfold remove
  simp only [locate?_of_no_parent h]

/-- Where there is no child, nothing is asked of the parent. -/
theorem remove_of_no_child (hroot : (Path.cut d path).isRoot = false)
    (hparent : root.parentOf? d path = some parent)
    (hchild : parent.child? (Path.cut d path).fragment = none) :
    root.remove d path = .failed root (.keyNotFound path) := by
  unfold remove
  rw [locate?_of_parentOf? hroot hparent, hchild]
  simp only [hroot, Location.isOccupied, Option.isSome_none, Bool.not_false, Bool.false_eq_true,
    if_false, if_true]

theorem failure_remove_of_child {child : Node} (hroot : (Path.cut d path).isRoot = false)
    (hparent : root.parentOf? d path = some parent)
    (hchild : parent.child? (Path.cut d path).fragment = some child) :
    (root.remove d path).failure = none := by
  unfold remove
  simp only [locate?_of_child hroot hparent hchild, hroot, Location.isOccupied, Option.isSome_some,
    Bool.not_true, Bool.false_eq_true, if_false]
  exact (editParent_of_some hparent).1.trans (failure_detach hchild)

theorem tellsOfLack_remove (hroot : (Path.cut d path).isRoot = false) (root : Node) :
    TellsOfLack d path root (root.remove d path).failure := by
  cases hparent : root.parentOf? d path with
  | none =>
    rw [remove_of_no_parent hparent]
    refine ⟨(tellsOfParent_of_none hparent).toTellsOfWay, fun q => ?_, fun q kind h => ?_⟩
    · simp [hparent, Edited.failed]
    · cases h
  | some parent =>
    have hway : ¬ root.Breaks (Path.parentSegments d path) := by
      simp [← parentOf?_eq_none_iff, hparent]
    cases hchild : parent.child? (Path.cut d path).fragment with
    | none =>
      rw [remove_of_no_child hroot hparent hchild]
      refine ⟨⟨fun q => ?_⟩, fun q => ?_, fun q kind h => ?_⟩
      · simp [hway, Edited.failed]
      · simp [hparent, hchild, Edited.failed, eq_comm]
      · cases h
    | some child =>
      rw [failure_remove_of_child hroot hparent hchild]
      refine ⟨⟨fun q => ?_⟩, fun q => ?_, fun q kind h => ?_⟩
      · simp [hway]
      · simp [hparent, hchild]
      · cases h

theorem TellsOfLack.tellsOfChild_iff (h : TellsOfLack d path root failure) :
    TellsOfChild d path root failure ↔
      ∀ parent, root.parentOf? d path = some parent → parent.isCompound = true := by
  refine ⟨fun hchild parent hparent => Bool.of_not_eq_false fun hc => ?_, fun hcompound => ?_⟩
  -- Below a scalar it would have to say what it never says.
  · exact h.indifferent path parent.kind ((hchild.scalar _ _).2 ⟨rfl, parent, hparent, hc, rfl⟩)
  · refine ⟨⟨h.toTellsOfWay, fun q kind => iff_of_false (h.indifferent q kind) ?_⟩, fun q => ?_⟩
    · rintro ⟨-, parent, hparent, hc, -⟩
      rw [hcompound parent hparent] at hc
      cases hc
    · rw [h.vacant]
      refine and_congr_right' (exists_congr fun parent => and_congr_right fun hparent => ?_)
      exact (and_iff_right (hcompound parent hparent)).symm

end

/-- Setting and merging fail below a path that breaks off and below a scalar, and tell the one from
the other.  A removal fails for want of a parent or of a child; it tells what it should of the parent
just where that is no scalar. -/
theorem edits_tell_why_they_fail {d : Char} {path : String}
    (hroot : (Path.cut d path).isRoot = false) (root : Node) :
    let removed := (root.remove d path).failure
    (∀ value, TellsOfParent d path root (root.set d path value).failure) ∧
    (∀ value limit, TellsOfParent d path root (root.merge limit d path value).failure) ∧
    TellsOfLack d path root removed ∧
    (TellsOfChild d path root removed ↔
      ∀ parent, root.parentOf? d path = some parent → parent.isCompound = true) := by
  intro removed
  have hremoved : TellsOfLack d path root removed := tellsOfLack_remove hroot root
  exact ⟨tellsOfParent_set hroot root, tellsOfParent_merge hroot root, hremoved,
    hremoved.tellsOfChild_iff⟩

/-- An array without an item that the path counts to. -/
theorem edits_tell_why_they_fail_in_array :
    let root : Node := .object ⟨[("a", .single (.object ⟨[("b", .single (.array [.null]))]⟩))]⟩
    let removed := (root.remove '.' "a..b.1").failure
    (Path.cut '.' "a..b.1").isRoot = false ∧
    (∀ value, TellsOfParent '.' "a..b.1" root (root.set '.' "a..b.1" value).failure) ∧
    (∀ value limit, TellsOfParent '.' "a..b.1" root (root.merge limit '.' "a..b.1" value).failure) ∧
    TellsOfChild '.' "a..b.1" root removed ∧ removed = some (.keyNotFound "a..b.1") := by
  intro root removed
  have hcut : Path.cut '.' "a..b.1" = ⟨some "a..b", "1"⟩ := by decide +kernel
  have hroot : (Path.cut '.' "a..b.1").isRoot = false := by rw [hcut]; rfl
  have hsegments : Path.parentSegments '.' "a..b.1" = ["a", "b"] := by decide +kernel
  have hparent : root.parentOf? '.' "a..b.1" = some (.array [.null]) := by
    rw [parentOf?_eq_follow?, hsegments]
    rfl
  obtain ⟨hset, hmerge, hlack, hiff⟩ := edits_tell_why_they_fail hroot root
  have hchild : TellsOfChild '.' "a..b.1" root removed := hiff.2 fun parent h => by
    cases hparent.symm.trans h
    rfl
  have hvacant : (Node.array [.null]).child? (Path.cut '.' "a..b.1").fragment = none := by
    rw [hcut]
    decide +kernel
  exact ⟨hroot, hset, hmerge, hchild, (hlack.vacant _).2 ⟨rfl, _, hparent, hvacant⟩⟩

/-- Below a number setting says that it cannot have children; a removal says that there is no such
key. -/
theorem removal_does_not_tell_of_scalar :
    let root : Node := .object ⟨[("a", .single (.int 1))]⟩
    let removed := (root.remove '.' "a.b").failure
    root.parentOf? '.' "a.b" = some (.int 1) ∧
      (root.set '.' "a.b" .null).failure = some (.invalidParent "a.b" .int) ∧
      (root.merge 128 '.' "a.b" .null).failure = some (.invalidParent "a.b" .int) ∧
      removed = some (.keyNotFound "a.b") ∧ ¬ TellsOfChild '.' "a.b" root removed := by
  intro root removed
  have hparent : root.parentOf? '.' "a.b" = some (.int 1) := by
    have hsegments : Path.parentSegments '.' "a.b" = ["a"] := by decide +kernel
    rw [parentOf?_eq_follow?, hsegments]
    rfl
  have hremoved : removed = some (.keyNotFound "a.b") := by decide +kernel
  refine ⟨hparent, by decide +kernel, by decide +kernel, hremoved, fun h => ?_⟩
  have hscalar := (h.scalar "a.b" .int).2 ⟨rfl, .int 1, hparent, rfl, rfl⟩
  cases hremoved.symm.trans hscalar

end ConfigTree.Node
