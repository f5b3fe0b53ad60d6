import ConfigTree.Proofs.Edit.Atomicity

/-! Looking up a path and cutting it for an edit agree: what a path names is the child of its parent
under the final fragment.  The segments of a path settle what it leads to and what an edit there
does; the rest of its text only stands in errors. -/

namespace ConfigTree

/-- The same error, told of another path. -/
def Error.retold (path : String) : Error → Error
  | parentNotFound _ => parentNotFound path
  | keyNotFound _ => keyNotFound path
  | invalidParent _ kind => invalidParent path kind
  | e => e

def Edited.retold {α : Type} (path : String) (e : Edited α) : Edited α :=
  ⟨e.value, e.failure.map (Error.retold path)⟩

namespace Node

/-! ## Reading and updating -/

/-- An update is handed the node a lookup finds, reports what comes of it, and leaves it changed
where it was. -/
structure Reaches (lookup : Node → Option Node)
    (update : (β : Type) → (Node → Node × β) → Node → Option (Node × β)) : Prop where
  report : ∀ (β : Type) (f : Node → Node × β) (n : Node),
    (update β f n).map Prod.snd = (lookup n).map fun m => (f m).2
  outcome : ∀ (β : Type) (f : Node → Node × β) (n : Node) (r : Node × β),
    update β f n = some r → lookup r.1 = (lookup n).map fun m => (f m).1

theorem reaches_follow? (segments : List String) :
    Reaches (follow? segments) fun _ f => update? f segments where
  report _ f n := by
    cases hr : n.update? f segments with
    | none => rw [update?_eq_none_iff.1 hr, Option.map_none, Option.map_none]
    | some r =>
      obtain ⟨m, hm, -, hreport⟩ := follow?_of_update? hr
      rw [hm, Option.map_some, Option.map_some, hreport]
  outcome _ f n r hr := by
    obtain ⟨m, hm, hvalue, -⟩ := follow?_of_update? hr
    rw [hm, Option.map_some, hvalue]

theorem reaches_parentOf? (d : Char) (path : String) :
    Reaches (parentOf? d path) fun _ => updateParentOf? d path where
  report β f n := by
    rw [parentOf?_eq_follow?, updateParentOf?_eq_update?]
    exact (reaches_follow? (Path.parentSegments d path)).report β f n
  outcome β f n r hr := by
    rw [updateParentOf?_eq_update?] at hr
    rw [parentOf?_eq_follow?, parentOf?_eq_follow?]
    exact (reaches_follow? (Path.parentSegments d path)).outcome β f n r hr

/-- What an update reports may be passed through a function afterwards. -/
theorem update?_report {β γ : Type} (f : Node → Node × β) (g : β → γ) (segments : List String)
    (n : Node) :
    n.update? (fun m => ((f m).1, g (f m).2)) segments =
      (n.update? f segments).map fun r => (r.1, g r.2) := by
  induction segments generalizing n with
  | nil => rfl
  | cons s ss ih =>
    simp only [update?, updateChild?]
    cases n.child? s with
    | none => rfl
    | some child =>
      rw [Option.bind_some, Option.bind_some, ih, Option.map_map, Option.map_map]
      rfl

/-! ## Locations -/

section

variable {d : Char} {path other : String} {root : Node}

theorem lookup?_eq_ite (d : Char) (path : String) (root : Node) :
    root.lookup? d path = if (Path.cut d path).isRoot then some root
      else (root.parentOf? d path).bind (·.child? (Path.cut d path).fragment) := by
  split
  · next h => exact lookup?_of_isRoot h root
  · next h => exact lookup?_eq_bind_child? (eq_false_of_ne_true h) root

theorem locate?_eq_none_iff : root.locate? d path = none ↔ root.parentOf? d path = none :=
  Option.map_eq_none_iff

theorem occupant_of_locate? {location : Location} (h : root.locate? d path = some location) :
    location.occupant = if (Path.cut d path).isRoot then none else root.lookup? d path := by
  obtain ⟨parent, hparent, rfl⟩ := Option.map_eq_some_iff.1 h
  rw [lookup?_eq_ite, hparent, Option.bind_some]
  -- The cases must not unfold the cut of the path.
  generalize Path.cut d path = cut
  cases h : cut.isRoot <;> simp [h]

theorem isOccupied_iff {location : Location} (h : root.locate? d path = some location) :
    location.isOccupied = true ↔
      (Path.cut d path).isRoot = false ∧ ∃ n, root.lookup? d path = some n := by
  rw [Location.isOccupied, occupant_of_locate? h]
  cases (Path.cut d path).isRoot <;> simp [Option.isSome_iff_exists]

theorem lookup?_of_vacant {location : Location} (h : root.locate? d path = some location)
    (hroot : (Path.cut d path).isRoot = false) (ho : location.isOccupied = false) :
    root.lookup? d path = none := by
  rw [Location.isOccupied, occupant_of_locate? h, hroot] at ho
  exact Option.isNone_iff_eq_none.1 (Option.isSome_eq_false_iff.1 ho)

/-- Two locations at which edits do the same. -/
structure Location.Alike (l l' : Location) : Prop where
  isRoot : l'.cut.isRoot = l.cut.isRoot
  fragment : l'.cut.fragment = l.cut.fragment
  isOccupied : l'.isOccupied = l.isOccupied

theorem locate?_of_segments (h : Path.segments d other = Path.segments d path) (root : Node) :
    (root.locate? d path = none ∧ root.locate? d other = none) ∨
      ∃ l l', root.locate? d path = some l ∧ root.locate? d other = some l' ∧ l.Alike l' := by
  obtain ⟨hroot, hfragment, hparents⟩ := Path.cut_of_segments h
  simp only [locate?, parentOf?_eq_follow?, hparents]
  -- Comparing locations must not unfold the cuts of the paths.
  generalize Path.cut d path = cut at hroot hfragment
  generalize Path.cut d other = cut' at hroot hfragment
  cases root.follow? (Path.parentSegments d path) with
  | none => exact .inl ⟨rfl, rfl⟩
  | some parent =>
    refine .inr ⟨_, _, rfl, rfl, hroot, hfragment, ?_⟩
    simp only [Location.isOccupied, hroot, hfragment]

end

/-! ## Edits of the parent -/

section

variable {limit : Nat} {path other fragment : String} {value parent : Node}
  {location location' : Location}

theorem attach_retold (h : location.Alike location') (value parent : Node) :
    attach location' other value parent = (attach location path value parent).retold other := by
  cases parent with
  | array items =>
    simp only [attach, h.fragment, h.isOccupied]
    split
    · split <;> rfl
    · rfl
  | object o =>
    simp only [attach, h.fragment]
    rfl
  | _ => rfl

theorem detach_retold (parent : Node) :
    detach other fragment parent = (detach path fragment parent).retold other := by
  cases parent with
  | array items =>
    simp only [detach]
    split
    · split <;> rfl
    · rfl
  | object o =>
    simp only [detach]
    split <;> rfl
  | _ => rfl

/-- Nodes that combine fail for depth only, whatever the path. -/
theorem retold_of_combine (other : String) {target : Node} {result : Edited Node}
    (h : combine limit target value = .merged result) : result.retold other = result := by
  obtain ⟨n, failure⟩ := result
  cases failure with
  | none => rfl
  | some e =>
    obtain ⟨rfl, -⟩ := failure_combine h rfl
    rfl

theorem keepBoth_retold (h : location.Alike location') (value parent : Node) :
    keepBoth location' other value parent = (keepBoth location path value parent).retold other := by
  unfold keepBoth
  split
  · rw [h.fragment]
    rfl
  · exact attach_retold h value _

theorem mergeChild_retold (h : location.Alike location') (value parent : Node) :
    mergeChild limit location' other value parent =
      (mergeChild limit location path value parent).retold other := by
  simp only [mergeChild, h.fragment]
  split
  · rfl
  · split
    · next result hresult =>
      have hfailure := congrArg Edited.failure (retold_of_combine other hresult)
      exact congrArg (Edited.mk _) hfailure.symm
    · exact keepBoth_retold h _ parent

end

/-! ## Edits of a tree -/

section

variable {d : Char} {path other : String} {root value : Node} {limit : Nat}

theorem editParent_retold {f g : Node → Edited Node}
    (h : Path.segments d other = Path.segments d path)
    (hg : ∀ parent, g parent = (f parent).retold other) :
    root.editParent d other g = (root.editParent d path f).retold other := by
  have hreport := update?_report (fun parent => ((f parent).value, (f parent).failure))
    (Option.map (Error.retold other)) (Path.parentSegments d path) root
  obtain rfl : g = fun parent => (f parent).retold other := funext hg
  rw [editParent, editParent, updateParentOf?_eq_update?, updateParentOf?_eq_update?,
    (Path.cut_of_segments h).2.2]
  simp only [Edited.retold]
  rw [hreport]
  cases root.update? (fun parent => ((f parent).value, (f parent).failure))
    (Path.parentSegments d path) <;> rfl

theorem set_retold (h : Path.segments d other = Path.segments d path) :
    root.set d other value = (root.set d path value).retold other := by
  rcases locate?_of_segments h root with ⟨hp, ho⟩ | ⟨l, l', hp, ho, hl⟩
  · unfold set
    simp only [hp, ho]
    rfl
  · unfold set
    simp only [hp, ho, hl.isRoot]
    split
    · rfl
    · exact editParent_retold h (attach_retold hl value)

theorem merge_retold (h : Path.segments d other = Path.segments d path) :
    root.merge limit d other value = (root.merge limit d path value).retold other := by
  rcases locate?_of_segments h root with ⟨hp, ho⟩ | ⟨l, l', hp, ho, hl⟩
  · unfold merge
    simp only [hp, ho]
    rfl
  · unfold merge
    simp only [hp, ho, hl.isRoot]
    split
    · split
      · next hcombine => exact (retold_of_combine other hcombine).symm
      · rfl
    · refine editParent_retold h fun parent => ?_
      rw [hl.isOccupied]
      split
      · exact mergeChild_retold hl value parent
      · exact attach_retold hl value parent

theorem remove_retold (h : Path.segments d other = Path.segments d path) :
    root.remove d other = (root.remove d path).retold other := by
  rcases locate?_of_segments h root with ⟨hp, ho⟩ | ⟨l, l', hp, ho, hl⟩
  · unfold remove
    simp only [hp, ho]
    rfl
  · unfold remove
    simp only [hp, ho, hl.isRoot, hl.isOccupied, hl.fragment]
    split
    · rfl
    · split
      · rfl
      · exact editParent_retold h detach_retold

end

/-- A path is cut into a parent and a fragment that lead where its segments lead, to read and to
edit alike; and paths with the same segments are the same to every lookup and edit, but for the
path that an error names. -/
theorem resolvers_agree (d : Char) (path : String) (root : Node) :
    (d ∉ (Path.cut d path).fragment.toList ∧
      (Path.cut d path).joined d = Path.normalize d path ∧
      ((Path.cut d path).isRoot = true ↔ ∀ c ∈ path.toList, c = d)) ∧
    (root.lookup? d path = if (Path.cut d path).isRoot then some root
      else (root.parentOf? d path).bind (·.child? (Path.cut d path).fragment)) ∧
    ((root.locate? d path = none ↔ root.parentOf? d path = none) ∧
      ∀ location, root.locate? d path = some location →
        (location.isOccupied = true ↔
          (Path.cut d path).isRoot = false ∧ ∃ n, root.lookup? d path = some n)) ∧
    (Reaches (lookup? d path) (fun _ f => update? f (Path.segments d path)) ∧
      Reaches (parentOf? d path) (fun _ => updateParentOf? d path)) ∧
    ∀ other, Path.segments d other = Path.segments d path →
      root.lookup? d other = root.lookup? d path ∧
      (∀ value, root.set d other value = (root.set d path value).retold other) ∧
      (∀ limit value,
        root.merge limit d other value = (root.merge limit d path value).retold other) ∧
      root.remove d other = (root.remove d path).retold other := by
  refine ⟨⟨Path.not_mem_fragment d path, Path.joined_cut d path, Path.isRoot_cut_iff⟩,
    lookup?_eq_ite d path root, ⟨locate?_eq_none_iff, fun location h => isOccupied_iff h⟩,
    ⟨reaches_follow? (Path.segments d path), ?_⟩, fun other h => ⟨?_, ?_, ?_, ?_⟩⟩
  · exact reaches_parentOf? d path
  · rw [lookup?, lookup?, h]
  · exact fun value => set_retold h
  · exact fun limit value => merge_retold h
  · exact remove_retold h

/-- Delimiters in front, doubled and at the end: an item is found and replaced as without them, and
a missing parent is told of the path as it was given. -/
theorem resolvers_agree_on_doubled_delimiters :
    let root : Node := .object ⟨[("a", .single (.array [.int 1]))]⟩
    (Path.segments '.' ".a..+0.." = Path.segments '.' "a.+0" ∧
      root.lookup? '.' ".a..+0.." = root.lookup? '.' "a.+0" ∧
      root.set '.' ".a..+0.." .null = (root.set '.' "a.+0" .null).retold ".a..+0..") ∧
    (Path.segments '.' "..b.c." = Path.segments '.' "b.c" ∧
      root.remove '.' "..b.c." = (root.remove '.' "b.c").retold "..b.c." ∧
      (root.remove '.' "..b.c.").failure = some (.parentNotFound "..b.c.")) := by
  intro root
  have hitem : Path.segments '.' ".a..+0.." = Path.segments '.' "a.+0" := by decide +kernel
  have hmissing : Path.segments '.' "..b.c." = Path.segments '.' "b.c" := by decide +kernel
  obtain ⟨-, -, -, -, hsame⟩ := resolvers_agree '.' "a.+0" root
  obtain ⟨hlookup, hset, -, -⟩ := hsame ".a..+0.." hitem
  obtain ⟨-, -, -, -, hother⟩ := resolvers_agree '.' "b.c" root
  exact ⟨⟨hitem, hlookup, hset .null⟩, hmissing, (hother "..b.c." hmissing).2.2.2,
    by decide +kernel⟩

end Node

end ConfigTree
